import Mathlib.Data.List.Basic

/-! `setTimeout` and `clearTimeout`: the timers that have not fired yet, by their numbers. -/

namespace CppCoder.Support

structure Timers where
  pending : List Nat := []
  next : Nat := 0
  fresh : ∀ t ∈ pending, t < next := by simp

namespace Timers

def start : Timers := {}

/-- `setTimeout`. -/
def set (timers : Timers) : Nat × Timers :=
  (timers.next,
    { pending := timers.pending ++ [timers.next]
      next := timers.next + 1
      fresh := by
        intro t member
        obtain old | new := List.mem_append.1 member
        · exact Nat.lt_succ_of_lt (timers.fresh t old)
        · exact List.mem_singleton.1 new ▸ Nat.lt_succ_self _ })

/-- `clearTimeout`, and what the browser does when a timer fires. -/
def clear (timers : Timers) (timer : Nat) : Timers where
  pending := timers.pending.filter fun t => t ≠ timer
  next := timers.next
  fresh := fun t member => timers.fresh t (List.mem_of_mem_filter member)

/-- `clearTimeout` of a variable that may hold nothing. -/
def clearVariable (timers : Timers) : Option Nat → Timers
  | none => timers
  | some timer => timers.clear timer

variable {timers : Timers}

@[simp] theorem set_timer : timers.set.1 = timers.next := rfl

@[simp] theorem set_pending : timers.set.2.pending = timers.pending ++ [timers.next] := rfl

@[simp] theorem clear_pending (timer : Nat) :
    (timers.clear timer).pending = timers.pending.filter fun t => t ≠ timer := rfl

theorem set_only (none : timers.pending = []) : timers.set.2.pending = [timers.next] := by simp [none]

theorem clear_only {timer : Nat} (only : ∀ t ∈ timers.pending, t = timer) :
    (timers.clear timer).pending = [] := by
  rw [clear_pending, List.filter_eq_nil_iff]
  intro t member
  simp [only t member]

end Timers

end CppCoder.Support
