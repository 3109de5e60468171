import Mathlib.Data.List.Basic

/-! Files that hold one record on each line, and what is left of one that was cut off anywhere. -/

namespace CppCoder.Support.Lines

variable {α β : Type}

/-- Every line with its end. -/
def joined (sep : α) (lines : List (List α)) : List α := lines.flatMap (· ++ [sep])

variable {sep : α} {line tail : List α} {lines : List (List α)}

theorem joined_cons : joined sep (line :: lines) = line ++ sep :: joined sep lines := by
  simp [joined]

theorem joined_append (first second : List (List α)) :
    joined sep (first ++ second) = joined sep first ++ joined sep second := List.flatMap_append

theorem take_joined (sep : α) (n : Nat) (lines : List (List α)) :
    ∃ m k, (joined sep lines).take n = joined sep (lines.take m) ++ ((lines.drop m).headD []).take k ∧
      ∀ j ≤ lines.length, (joined sep (lines.take j)).length ≤ n → j ≤ m := by
  induction lines generalizing n with
  | nil => exact ⟨0, 0, by simp [joined], by simp⟩
  | cons line rest ih =>
    by_cases whole : line.length < n
    · obtain ⟨m, k, cut, most⟩ := ih (n - line.length - 1)
      refine ⟨m + 1, k, ?_, ?_⟩
      · have split : (line ++ [sep]).length ≤ n := by
          rw [List.length_append, List.length_singleton]
          omega
        calc (joined sep (line :: rest)).take n
            = ((line ++ [sep]) ++ joined sep rest).take n := rfl
          _ = (line ++ [sep]) ++ (joined sep rest).take (n - line.length - 1) := by
              rw [List.take_append, List.take_of_length_le split, List.length_append, List.length_singleton,
                Nat.sub_sub]
          _ = joined sep ((line :: rest).take (m + 1)) ++ (((line :: rest).drop (m + 1)).headD []).take k := by
              rw [cut, ← List.append_assoc]
              rfl
      · intro j short fits
        cases j with
        | zero => exact Nat.zero_le _
        | succ j =>
          rw [List.take_succ_cons, joined_cons, List.length_append, List.length_cons] at fits
          exact Nat.succ_le_succ (most j (Nat.le_of_succ_le_succ short) (by omega))
    · refine ⟨0, n, ?_, ?_⟩
      · rw [joined_cons, List.take_append_of_le_length (by omega)]
        rfl
      · intro j short fits
        cases j with
        | zero => exact Nat.le_refl 0
        | succ j =>
          rw [List.take_succ_cons, joined_cons, List.length_append, List.length_cons] at fits
          omega

variable [DecidableEq α]

theorem splitOn_joined (whole : ∀ line ∈ lines, sep ∉ line) (last : sep ∉ tail) :
    (joined sep lines ++ tail).splitOn sep = lines ++ [tail] := by
  induction lines with
  | nil => exact List.splitOn_eq_singleton last
  | cons line rest ih =>
    rw [joined_cons, List.append_assoc, List.cons_append,
      List.splitOn_append_cons_self_of_not_mem (whole line List.mem_cons_self),
      ih fun other member => whole other (List.mem_cons_of_mem _ member)]
    rfl

end CppCoder.Support.Lines
