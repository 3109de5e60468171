import CppCoder.Session
import CppCoder.TaskQueue

/-! The loop that both engines run: take the next task, investigate it, mark its area as visited, put
the result to use, and queue the directions of a result that is not final. -/

namespace CppCoder.EngineLoop
open Support Utf8 JsonValue Program CppCoder.Types TaskQueue CodebaseScanner Session

structure EngineConfig where
  tokenBudgetPerTask : UInt64 := 120000
  maxIterations : Int := 200
  maxWallClock : Int := 90
  maxInitialKeywords : Nat := 5

def directionsToJson (directions : List Task) : Json :=
  .arr (directions.map fun d => .obj [(ascii "id", .str d.id), (ascii "target_area", .str d.targetArea),
    (ascii "research_goal", .str d.researchGoal)])

def taskQueued (t : Task) : Json :=
  event "task_queued" [("id", .str t.id), ("parent_id", .str t.parentId),
    ("target_area", .str t.targetArea), ("research_goal", .str t.researchGoal),
    ("depth", .integer t.depth), ("repeat_count", .unsigned (UInt64.ofNat t.repeatTargets.length))]

def taskStarted (t : Task) : Json :=
  event "task_started" [("id", .str t.id), ("target_area", .str t.targetArea), ("depth", .integer t.depth)]

def child (task dir : Task) : Task := { dir with depth := task.depth + 1, parentId := task.id }

def announce (dir : Task) (accepted : Bool) : Prog Unit :=
  if accepted then emit (taskQueued dir) else return ()

def pushDirection (task : Task) (queue : Queue) (dir : Task) : Prog Queue := do
  let dir := child task dir
  let pushed := queue.push dir
  record (.pushed dir pushed.1)
  announce dir pushed.1
  return pushed.2

theorem keeps_pushDirection {condition : Act → Prop} (task : Task) (queue : Queue) (dir : Task)
    (holds : ∀ accepted, condition (.pushed (child task dir) accepted)) :
    Keeps (Leaves condition) (pushDirection task queue dir) := by
  refine keeps_bind (keeps_record (holds _)) fun _ => keeps_bind ?_ fun _ => keeps_pure _
  unfold announce
  split_ifs
  · exact keeps_emit _
  · exact keeps_pure _

theorem pushDirection_queue (task : Task) (queue : Queue) (dir : Task) (w : World) :
    Runs (pushDirection task queue dir) w (fun queue' _ => queue' = (queue.push (child task dir)).2)
      fun _ _ => True := by
  refine Runs.bind (runs_record (Runs.bind ?_))
  unfold announce
  split_ifs
  · exact runs_emit (fun _ => Runs.pure rfl) fun _ => trivial
  · exact Runs.pure (Runs.pure rfl)

/-- What an engine does with a task, with a result, and which of its directions are followed. -/
structure Steps (φ ρ : Type) where
  investigate : Task → Prog φ
  settle : Task → φ → ρ → Prog ρ
  followUps : φ → List Task

structure Progress (ρ : Type) where
  queue : Queue
  iterations : Nat
  gathered : ρ

variable {φ ρ : Type}

/-- The body of the loop, with the task already taken from the queue. -/
def Steps.process (steps : Steps φ ρ) (task : Task) (queue : Queue) (progress : Progress ρ) :
    Prog (Progress ρ) := do
  record (.started task)
  emit (taskStarted task)
  let result ← steps.investigate task
  record (.settled task (steps.followUps result))
  let queue := queue.markVisited task.targetArea
  let gathered ← steps.settle task result progress.gathered
  let queue ← (steps.followUps result).foldlM (pushDirection task) queue
  return { queue, iterations := progress.iterations + 1, gathered }

theorem Steps.process_rule (steps : Steps φ ρ) {task : Task} {queue : Queue} {progress : Progress ρ}
    {w : World} {done : Progress ρ → World → Prop} {failed : Exn → World → Prop}
    (dirty : ¬ (taskStarted task).dumpable = true →
      failed .type { w with trace := w.trace ++ [.started task] })
    (turn : Runs (steps.investigate task)
      { w with trace := w.trace ++ [.started task], events := w.events ++ [taskStarted task] }
      (fun result w1 => Runs (steps.settle task result progress.gathered)
        { w1 with trace := w1.trace ++ [.settled task (steps.followUps result)] }
        (fun gathered w2 => Runs
          ((steps.followUps result).foldlM (pushDirection task) (queue.markVisited task.targetArea)) w2
          (fun queue w3 => done { queue, iterations := progress.iterations + 1, gathered } w3)
          failed) failed) failed) : Runs (steps.process task queue progress) w done failed := by
  unfold Steps.process
  refine Runs.bind (runs_record (Runs.bind (runs_emit (fun _ => Runs.bind ?_) dirty)))
  refine turn.weaken fun result w1 settled => Runs.bind (runs_record (Runs.bind ?_))
  refine settled.weaken fun gathered w2 pushed => Runs.bind ?_
  exact pushed.weaken fun queue w3 holds => Runs.pure holds

inductive Ending where
  | drained
  | maxIterations
  | wallClock
  deriving DecidableEq

def Steps.explore (steps : Steps φ ρ) (env : Environment) (config : EngineConfig) (engineStart : Int) :
    Nat → Progress ρ → Prog (Progress ρ × Ending)
  | 0, progress =>
      match progress.queue.pop with
      | none => return (progress, .drained)
      | some _ => do
          let _ ← now env
          return (progress, .maxIterations)
  | left + 1, progress =>
      match progress.queue.pop with
      | none => return (progress, .drained)
      | some (task, queue) => do
          let time ← now env
          if config.maxWallClock ≤ toMinutes (time - engineStart) then return (progress, .wallClock)
          else
            let progress ← steps.process task queue progress
            steps.explore env config engineStart left progress

/-- The rule for the loop: what the body keeps, with a task taken from the queue, holds at the end. -/
theorem Steps.explore_runs (steps : Steps φ ρ) {env : Environment} {config : EngineConfig}
    {engineStart : Int} (inv : Progress ρ → World → Prop) {failed : Exn → World → Prop}
    (ticks : ∀ progress w n, inv progress w → inv progress { w with ticks := n })
    (body : ∀ progress w task queue, progress.queue.pop = some (task, queue) → inv progress w →
      Runs (steps.process task queue progress) w inv failed)
    (left : Nat) (progress : Progress ρ) (w : World) (start : inv progress w) :
    Runs (steps.explore env config engineStart left progress) w
      (fun ended w' => inv ended.1 w' ∧ (ended.2 = .drained → ended.1.queue.pop = none)) failed := by
  induction left generalizing progress w with
  | zero =>
    unfold Steps.explore
    cases next : progress.queue.pop with
    | none => exact Runs.pure ⟨start, fun _ => next⟩
    | some pair =>
      obtain ⟨task, queue⟩ := pair
      refine Runs.bind (runs_now (Runs.pure ⟨ticks _ _ _ start, ?_⟩))
      intro impossible
      cases impossible
  | succ left ih =>
    unfold Steps.explore
    cases next : progress.queue.pop with
    | none => exact Runs.pure ⟨start, fun _ => next⟩
    | some pair =>
      obtain ⟨task, queue⟩ := pair
      refine Runs.bind (runs_now ?_)
      have timed := ticks _ _ (w.ticks + 1) start
      split_ifs with late
      · refine Runs.pure ⟨timed, ?_⟩
        intro impossible
        cases impossible
      · refine Runs.bind ((body _ _ _ _ next timed).weaken fun progress' w' kept => ?_)
        exact ih progress' w' kept

theorem Steps.keeps_explore (steps : Steps φ ρ) {relation : World → World → Prop} (refl : ∀ w, relation w w)
    (trans : ∀ a b c, relation a b → relation b c → relation a c)
    (ticks : ∀ w n, relation w { w with ticks := n })
    (record : ∀ act, Keeps relation (record act))
    (started : ∀ task, Keeps relation (emit (taskStarted task)))
    (queued : ∀ task, Keeps relation (emit (taskQueued task)))
    (investigate : ∀ task, Keeps relation (steps.investigate task))
    (settle : ∀ task result gathered, Keeps relation (steps.settle task result gathered))
    (env : Environment) (config : EngineConfig) (engineStart : Int) (left : Nat) (progress : Progress ρ) :
    Keeps relation (steps.explore env config engineStart left progress) := by
  intro w
  refine (steps.explore_runs (fun _ w' => relation w w') (fun _ w' n kept => trans _ _ _ kept (ticks w' n))
    (fun progress w' task queue _ kept => ?_) left progress w (refl w)).weaken fun _ _ kept => kept.1
  have body : Keeps relation (steps.process task queue progress) := by
    refine Keeps.bind trans (record _) fun _ => Keeps.bind trans (started task) fun _ =>
      Keeps.bind trans (investigate task) fun result => Keeps.bind trans (record _) fun _ =>
      Keeps.bind trans (settle task result _) fun gathered =>
      Keeps.bind trans (Keeps.foldlM refl trans (fun queue dir => ?_) _ _) fun _ => Keeps.pure refl _
    refine Keeps.bind trans (record _) fun _ => Keeps.bind trans ?_ fun _ => Keeps.pure refl _
    unfold announce
    split_ifs
    · exact queued _
    · exact Keeps.pure refl _
  exact (body w').imp (fun _ _ far => trans _ _ _ kept far) fun _ _ far => trans _ _ _ kept far

end CppCoder.EngineLoop
