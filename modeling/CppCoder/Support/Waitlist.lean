import Mathlib.Data.List.Infix
import Mathlib.Data.List.Nodup
import Mathlib.Data.Set.Insert

/-! A waiting list that serves in the order of arrival and on which no two items have one key. Keys may be
closed at any time, also while an item with that key waits. -/

namespace CppCoder.Support

variable {α κ : Type*}

theorem mem_tail {first k : κ} {rest : List κ} (apart : (first :: rest).Nodup) :
    k ∈ rest ↔ k ≠ first ∧ k ∈ first :: rest := by
  rw [List.mem_cons]
  constructor
  · intro later
    have other : k ≠ first := fun same => (List.nodup_cons.1 apart).1 (same ▸ later)
    exact ⟨other, .inr later⟩
  · intro there
    exact there.2.resolve_left there.1

structure Waitlist (key : α → κ) where
  left : List α
  waiting : List α
  closed : Set κ
  apart : (waiting.map key).Nodup

namespace Waitlist

variable {key : α → κ}

def empty (key : α → κ) : Waitlist key := ⟨[], [], ∅, List.nodup_nil⟩

/-- All items that were ever let on the list. -/
def joined (w : Waitlist key) : List α := w.left ++ w.waiting

def Takes (w : Waitlist key) (item : α) : Prop := key item ∉ w.closed ∧ key item ∉ w.waiting.map key

def join (w : Waitlist key) (item : α) (takes : w.Takes item) : Waitlist key where
  left := w.left
  waiting := w.waiting ++ [item]
  closed := w.closed
  apart := by
    rw [List.map_append, List.map_singleton, List.nodup_append]
    refine ⟨w.apart, List.nodup_singleton _, ?_⟩
    intro first there second same equal
    rw [List.mem_singleton] at same
    exact takes.2 (same ▸ equal ▸ there)

/-- The first item leaves. -/
def serve (w : Waitlist key) : Waitlist key where
  left := w.left ++ w.waiting.take 1
  waiting := w.waiting.drop 1
  closed := w.closed
  apart := w.apart.sublist ((List.drop_sublist 1 w.waiting).map key)

def close (w : Waitlist key) (k : κ) : Waitlist key := { w with closed := insert k w.closed }

variable {w : Waitlist key}

@[simp] theorem joined_join {item : α} (takes : w.Takes item) :
    (w.join item takes).joined = w.joined ++ [item] := (List.append_assoc _ _ _).symm

@[simp] theorem joined_close (k : κ) : (w.close k).joined = w.joined := rfl

/-- Who is served had joined before. -/
@[simp] theorem joined_serve : w.serve.joined = w.joined := by
  unfold joined serve
  rw [List.append_assoc, List.take_append_drop]

theorem left_prefix (w : Waitlist key) : w.left <+: w.joined := List.prefix_append _ _

section
variable {first : α} {rest : List α}

theorem waiting_serve (split : w.waiting = first :: rest) : w.serve.waiting = rest := by
  unfold serve
  simp only [split, List.drop_one, List.tail_cons]

theorem left_serve (split : w.waiting = first :: rest) : w.serve.left = w.left ++ [first] := by
  unfold serve
  simp only [split, List.take_succ_cons, List.take_zero]

theorem mem_serve (split : w.waiting = first :: rest) (k : κ) :
    k ∈ w.serve.waiting.map key ↔ k ≠ key first ∧ k ∈ w.waiting.map key := by
  have apart := w.apart
  rw [split, List.map_cons] at apart
  rw [waiting_serve split, split, List.map_cons]
  exact mem_tail apart

end

end Waitlist
end CppCoder.Support
