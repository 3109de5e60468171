import Mathlib.Data.List.TakeWhile
import Mathlib.Data.List.Range

/-! The maximal runs of a kind of item in a list: stretches of items of the kind that no such item borders. -/

namespace CppCoder.Support.MaximalRuns

variable {α : Type*} (p : α → Bool)

/-- A stretch between what is before it and what is behind it. -/
structure Maximal (before run behind : List α) : Prop where
  nonempty : run ≠ []
  inside : ∀ c ∈ run, p c = true
  left : before.getLast?.any p = false
  right : behind.head?.any p = false

def startsAt (before text : List α) (i : Nat) : Bool :=
  text[i]?.any p && !(before ++ text.take i).getLast?.any p

def runsBehind (before text : List α) : List (List α) :=
  ((List.range text.length).filter (startsAt p before text)).map fun i => (text.drop i).takeWhile p

/-- One run for each position with an item of the kind and none right before it, in their order. -/
def runs (text : List α) : List (List α) := runsBehind p [] text

variable {p}

theorem runsBehind_cons (before : List α) (c : α) (rest : List α) :
    runsBehind p before (c :: rest) =
      (if p c && !before.getLast?.any p then [c :: rest.takeWhile p] else []) ++
        runsBehind p (before ++ [c]) rest := by
  have first : startsAt p before (c :: rest) 0 = (p c && !before.getLast?.any p) := by
    simp [startsAt]
  have later : startsAt p before (c :: rest) ∘ Nat.succ = startsAt p (before ++ [c]) rest := by
    funext i
    simp [startsAt]
  unfold runsBehind
  rw [List.length_cons, List.range_succ_eq_map, List.filter_cons, List.filter_map, later, first]
  split_ifs with start
  · have word : p c = true := (Bool.and_eq_true_iff.1 start).1
    simp [word, Function.comp_def]
  · simp [Function.comp_def]

theorem mem_runs {text run : List α} : run ∈ runs p text ↔
    ∃ before behind, text = before ++ run ++ behind ∧ Maximal p before run behind := by
  unfold runs runsBehind
  rw [List.mem_map]
  constructor
  · intro ⟨i, there, same⟩
    obtain ⟨bound, start⟩ := List.mem_filter.1 there
    have bound : i < text.length := List.mem_range.1 bound
    have start := Bool.and_eq_true_iff.1 start
    have word : p text[i] = true := by simpa [bound] using start.1
    have left : (text.take i).getLast?.any p = false := by simpa using start.2
    have split : text = text.take i ++ run ++ (text.drop i).dropWhile p := by
      rw [← same, List.append_assoc, List.takeWhile_append_dropWhile, List.take_append_drop]
    refine ⟨_, _, split, ?_, ?_, left, ?_⟩
    · rw [← same, List.drop_eq_getElem_cons bound, List.takeWhile_cons, if_pos word]
      exact List.cons_ne_nil _ _
    · intro c inside
      exact List.mem_takeWhile_imp (same ▸ inside)
    · have stop := List.head?_dropWhile_not p (text.drop i)
      cases next : ((text.drop i).dropWhile p).head? with
      | none => rfl
      | some c => simpa [next] using stop
  · intro ⟨before, behind, split, maximal⟩
    have stop : behind.takeWhile p = [] := by
      cases behind with
      | nil => rfl
      | cons c rest => exact List.takeWhile_cons_of_neg (by simpa using maximal.right)
    refine ⟨before.length, List.mem_filter.2 ⟨?_, ?_⟩, ?_⟩
    · rw [split, List.mem_range]
      have positive := List.length_pos_iff.2 maximal.nonempty
      simp only [List.length_append]
      omega
    · obtain ⟨c, rest, rfl⟩ := List.exists_cons_of_ne_nil maximal.nonempty
      have word : p c = true := maximal.inside c List.mem_cons_self
      simp [startsAt, split, word, maximal.left]
    · rw [split, List.append_assoc, List.drop_left, List.takeWhile_append_of_pos maximal.inside, stop,
        List.append_nil]

end CppCoder.Support.MaximalRuns
