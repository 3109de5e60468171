import CppCoder.TaskQueue

/-! The queue under any sequence of its operations. Taking the front of an empty queue is undefined, so no
run does it. -/

namespace CppCoder.QueueRuns
open Support Utf8 CppCoder.Types TaskQueue

inductive Operation where
  | push (task : Task)
  | pop
  | markVisited (area : Bytes)

/-- The queue, with the tasks that it took and the tasks that it gave back so far. -/
structure Run where
  queue : Queue := {}
  accepted : List Task := []
  popped : List Task := []

def Run.push (r : Run) (task : Task) : Run where
  queue := (r.queue.push task).2
  accepted := r.accepted ++ if (r.queue.push task).1 then [task] else []
  popped := r.popped

def Run.pop (r : Run) : Option Run :=
  r.queue.pop.map fun next => { r with queue := next.2, popped := r.popped ++ [next.1] }

def Run.apply (r : Run) : Operation → Option Run
  | .push task => some (r.push task)
  | .pop => r.pop
  | .markVisited area => some { r with queue := r.queue.markVisited area }

def operate (operations : List Operation) : Option Run := operations.foldlM Run.apply {}

theorem apply_none {r : Run} {op : Operation} : r.apply op = none ↔ op = .pop ∧ r.queue.queue = [] := by
  cases op with
  | push task => simp [Run.apply]
  | markVisited area => simp [Run.apply]
  | pop =>
    unfold Run.apply Run.pop Queue.pop
    cases waiting : r.queue.queue <;> simp

/-! ### The waiting list behind the queue -/

structure Run.Serves (r : Run) (w : Waitlist Task.targetArea) : Prop where
  queue : r.queue.queue = w.waiting
  popped : r.popped = w.left
  accepted : r.accepted = w.joined
  visited : ∀ area, area ∈ r.queue.visited ↔ area ∈ w.closed
  queued : ∀ area, area ∈ r.queue.queuedAreas ↔ area ∈ w.waiting.map Task.targetArea

theorem serves_empty : Run.Serves {} (Waitlist.empty Task.targetArea) := by
  constructor <;> simp [Waitlist.empty, Waitlist.joined]

namespace Run.Serves
variable {r : Run} {w : Waitlist Task.targetArea}

theorem refused (serves : r.Serves w) (task : Task) :
    (task.targetArea ∈ r.queue.visited ∨ task.targetArea ∈ r.queue.queuedAreas) ↔ ¬ w.Takes task := by
  rw [serves.visited, serves.queued]
  unfold Waitlist.Takes
  tauto

theorem push_refused (serves : r.Serves w) {task : Task} (refuses : ¬ w.Takes task) :
    r.queue.push task = (false, r.queue) := by
  rw [push_eq, if_pos ((serves.refused task).2 refuses)]

theorem push_taken (serves : r.Serves w) {task : Task} (takes : w.Takes task) :
    r.queue.push task = (true, { r.queue with
      queuedAreas := insert task.targetArea r.queue.queuedAreas, queue := r.queue.queue ++ [task] }) := by
  rw [push_eq, if_neg]
  intro known
  exact (serves.refused task).1 known takes

theorem push_answer (serves : r.Serves w) (task : Task) : (r.queue.push task).1 = true ↔ w.Takes task := by
  by_cases takes : w.Takes task
  · rw [serves.push_taken takes]
    exact iff_of_true rfl takes
  · rw [serves.push_refused takes]
    exact iff_of_false Bool.false_ne_true takes

theorem join (serves : r.Serves w) {task : Task} (takes : w.Takes task) :
    (r.push task).Serves (w.join task takes) := by
  unfold Run.push
  rw [serves.push_taken takes]
  constructor
  · exact congrArg (· ++ [task]) serves.queue
  · exact serves.popped
  · rw [Waitlist.joined_join, ← serves.accepted]
    rfl
  · exact serves.visited
  · intro area
    simp [Waitlist.join, serves.queued, or_comm]

theorem turned_away (serves : r.Serves w) {task : Task} (refuses : ¬ w.Takes task) :
    (r.push task).Serves w := by
  have same : r.push task = r := by
    unfold Run.push
    rw [serves.push_refused refuses]
    simp
  rw [same]
  exact serves

theorem pop (serves : r.Serves w) {next : Run} (popped : r.pop = some next) : next.Serves w.serve := by
  obtain ⟨⟨task, rest⟩, taken, rfl⟩ := Option.map_eq_some_iff.1 popped
  obtain ⟨others, waiting, rfl⟩ := pop_cases taken
  have split : w.waiting = task :: others := serves.queue.symm.trans waiting
  constructor
  · exact (Waitlist.waiting_serve split).symm
  · rw [Waitlist.left_serve split, ← serves.popped]
  · rw [Waitlist.joined_serve, ← serves.accepted]
  · exact serves.visited
  · intro area
    rw [Finset.mem_erase, serves.queued, Waitlist.mem_serve split]

theorem markVisited (serves : r.Serves w) (area : Bytes) :
    Run.Serves { r with queue := r.queue.markVisited area } (w.close area) := by
  constructor
  · exact serves.queue
  · exact serves.popped
  · rw [Waitlist.joined_close, ← serves.accepted]
  · intro other
    simp [Queue.markVisited, Waitlist.close, serves.visited]
  · exact serves.queued

theorem apply (serves : r.Serves w) {op : Operation} {next : Run} (applied : r.apply op = some next) :
    ∃ w' : Waitlist Task.targetArea, next.Serves w' ∧
      ∀ area, area ∈ w'.closed ↔ area ∈ w.closed ∨ op = .markVisited area := by
  cases op with
  | push task =>
    cases applied
    by_cases takes : w.Takes task
    · exact ⟨_, serves.join takes, by simp [Waitlist.join]⟩
    · exact ⟨_, serves.turned_away takes, by simp⟩
  | pop => exact ⟨_, serves.pop applied, by simp [Waitlist.serve]⟩
  | markVisited area =>
    cases applied
    refine ⟨_, serves.markVisited area, fun other => ?_⟩
    simp [Waitlist.close, or_comm, eq_comm]

end Run.Serves

theorem operate_serves {operations : List Operation} : ∀ {run : Run}, operate operations = some run →
    ∃ w : Waitlist Task.targetArea, run.Serves w ∧
      ∀ area, area ∈ w.closed ↔ Operation.markVisited area ∈ operations := by
  induction operations using List.reverseRecOn with
  | nil =>
    intro run ran
    cases ran
    exact ⟨_, serves_empty, by simp [Waitlist.empty]⟩
  | append_singleton operations op ih =>
    intro run ran
    unfold operate at ran
    rw [List.foldlM_append] at ran
    obtain ⟨before, ranBefore, last⟩ := Option.bind_eq_some_iff.1 ran
    have applied : before.apply op = some run := by simpa using last
    obtain ⟨w, serves, closed⟩ := ih ranBefore
    obtain ⟨w', servesNext, grown⟩ := serves.apply applied
    refine ⟨w', servesNext, fun area => ?_⟩
    rw [grown, closed, List.mem_append, List.mem_singleton, eq_comm]

/-- After any sequence of operations the areas of the waiting tasks are distinct and are the queued ones, the
next push is refused exactly for an area that was visited or waits, and tasks come out as they went in. -/
theorem operations_invariant (operations : List Operation) (run : Run)
    (ran : operate operations = some run) :
    (run.queue.queue.map Task.targetArea).Nodup ∧
      (∀ area, area ∈ run.queue.queuedAreas ↔ area ∈ run.queue.queue.map Task.targetArea) ∧
      (∀ task, ((run.queue.push task).1 = true ↔
          Operation.markVisited task.targetArea ∉ operations ∧
            task.targetArea ∉ run.queue.queue.map Task.targetArea) ∧
        ((run.queue.push task).1 = false → (run.queue.push task).2 = run.queue)) ∧
      run.popped <+: run.accepted := by
  obtain ⟨w, serves, closed⟩ := operate_serves ran
  refine ⟨?_, ?_, fun task => ⟨?_, ?_⟩, ?_⟩
  · rw [serves.queue]
    exact w.apart
  · rw [serves.queue]
    exact serves.queued
  · rw [serves.push_answer, serves.queue, ← closed]
    rfl
  · intro refused
    have refuses : ¬ w.Takes task := by
      rw [← serves.push_answer, refused]
      exact Bool.false_ne_true
    rw [serves.push_refused refuses]
  · rw [serves.popped, serves.accepted]
    exact w.left_prefix

/-- An area that is visited while its task waits and pushed again once that task is out. -/
theorem operations_invariant_revisited :
    ∃ run, operate [.push { targetArea := [97] }, .markVisited [97], .push { targetArea := [98] }, .pop,
        .push { targetArea := [97] }] = some run ∧
      (run.queue.push { targetArea := [97] }).2 = run.queue ∧ run.popped <+: run.accepted := by
  refine ⟨_, rfl, ?_⟩
  have holds := operations_invariant [.push { targetArea := [97] }, .markVisited [97],
    .push { targetArea := [98] }, .pop, .push { targetArea := [97] }] _ rfl
  exact ⟨(holds.2.2.1 _).2 (by decide), holds.2.2.2⟩

end CppCoder.QueueRuns
