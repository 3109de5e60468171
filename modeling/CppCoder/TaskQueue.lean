import CppCoder.Types
import CppCoder.Support.BreadthFirst
import CppCoder.Support.Waitlist
import Mathlib.Data.Finset.Basic

/-! Pending tasks, first in first out, with the areas that were visited or are waiting. -/

namespace CppCoder.TaskQueue
open Support Utf8 CppCoder.Types BreadthFirst

structure Queue where
  queue : List Task := []
  visited : Finset Bytes := ∅
  queuedAreas : Finset Bytes := ∅

/-- Whether the task was taken, and the queue after it. Both kinds of tasks are treated alike. -/
def Queue.push (q : Queue) (task : Task) : Bool × Queue :=
  let accepted : Queue :=
    { q with queuedAreas := insert task.targetArea q.queuedAreas, queue := q.queue ++ [task] }
  if task.repeatable then
    if task.targetArea ∈ q.visited ∨ task.targetArea ∈ q.queuedAreas then (false, q) else (true, accepted)
  else if task.targetArea ∈ q.visited ∨ task.targetArea ∈ q.queuedAreas then (false, q)
  else (true, accepted)

def Queue.pop (q : Queue) : Option (Task × Queue) :=
  match q.queue with
  | [] => none
  | task :: rest =>
      some (task, { q with queue := rest, queuedAreas := q.queuedAreas.erase task.targetArea })

def Queue.markVisited (q : Queue) (area : Bytes) : Queue := { q with visited := insert area q.visited }

theorem push_eq (q : Queue) (task : Task) : q.push task =
    if task.targetArea ∈ q.visited ∨ task.targetArea ∈ q.queuedAreas then (false, q)
    else (true, { q with
      queuedAreas := insert task.targetArea q.queuedAreas, queue := q.queue ++ [task] }) := by
  unfold Queue.push
  cases task.repeatable <;> rfl

theorem push_queue (q : Queue) (task : Task) : ∀ other ∈ (q.push task).2.queue, other ∈ q.queue ∨
    other = task := by
  rw [push_eq]
  split_ifs
  · exact fun _ member => .inl member
  · simp

theorem pop_cases {q rest : Queue} {task : Task} (next : q.pop = some (task, rest)) :
    ∃ others, q.queue = task :: others ∧
      rest = { q with queue := others, queuedAreas := q.queuedAreas.erase task.targetArea } := by
  unfold Queue.pop at next
  cases waiting : q.queue with
  | nil => simp [waiting] at next
  | cons first others =>
    rw [waiting] at next
    cases next
    exact ⟨others, rfl, rfl⟩

theorem pop_queue {q rest : Queue} {task : Task} (next : q.pop = some (task, rest)) :
    q.queue = task :: rest.queue := by
  obtain ⟨others, waiting, rfl⟩ := pop_cases next
  exact waiting

/-- The two sets hold the areas of the tasks that are done and of those that wait. -/
structure Queue.Tracks (q : Queue) (done : List Task) : Prop where
  visited : ∀ area, area ∈ q.visited ↔ area ∈ done.map Task.targetArea
  queued : ∀ area, area ∈ q.queuedAreas ↔ area ∈ q.queue.map Task.targetArea

variable {q : Queue} {done : List Task}

theorem Queue.Tracks.visit (tracks : q.Tracks done) (distinct : (q.queue.map Task.targetArea).Nodup)
    {task : Task} {rest : Queue} (next : q.pop = some (task, rest)) :
    (rest.markVisited task.targetArea).Tracks (done ++ [task]) ∧ q.queue = task :: rest.queue := by
  obtain ⟨others, waiting, rfl⟩ := pop_cases next
  rw [waiting, List.map_cons] at distinct
  refine ⟨⟨fun area => ?_, fun area => ?_⟩, waiting⟩
  · simp [Queue.markVisited, tracks.visited, or_comm]
  · simp only [Queue.markVisited]
    rw [mem_tail distinct, Finset.mem_erase, tracks.queued, waiting, List.map_cons]

theorem Queue.Tracks.known (tracks : q.Tracks done) (area : Bytes) :
    (area ∈ q.visited ∨ area ∈ q.queuedAreas) ↔ area ∈ (done ++ q.queue).map Task.targetArea := by
  rw [tracks.visited, tracks.queued, List.map_append, List.mem_append]

theorem Queue.Tracks.push (tracks : q.Tracks done) (task : Task) :
    (q.push task).2.Tracks done ∧
      (q.push task).2.queue = q.queue ++ fresh Task.targetArea (done ++ q.queue) [task] := by
  rw [push_eq]
  simp only [fresh, ← tracks.known]
  split_ifs with refused
  · exact ⟨tracks, by simp⟩
  · refine ⟨⟨tracks.visited, fun area => ?_⟩, rfl⟩
    simp [tracks.queued, or_comm]

theorem Queue.Tracks.accepted (tracks : q.Tracks done) (task : Task) :
    fresh Task.targetArea (done ++ q.queue) [task] = if (q.push task).1 then [task] else [] := by
  rw [push_eq]
  simp only [fresh, ← tracks.known]
  split_ifs <;> first | rfl | contradiction

end CppCoder.TaskQueue
