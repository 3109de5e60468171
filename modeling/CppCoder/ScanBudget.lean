import Mathlib.Algebra.GroupWithZero.Nat
import CppCoder.ContextWindow

/-! The arithmetic of a scan: which files it includes, what they cost, and that nothing wraps as long as
the files are of a size that a machine can hold. -/

namespace CppCoder.ScanBudget
open Support Utf8 Disk CppCoder.Types CodebaseScanner ScanPlacement ContextWindow

section FirstFit
variable {α : Type} (weight : α → Nat) (budget : Nat)

def verdicts (used : Nat) : List α → List Bool
  | [] => []
  | a :: rest =>
      if used + weight a ≤ budget then true :: verdicts (used + weight a) rest
      else false :: verdicts used rest

def withVerdict (verdict : Bool) : List Bool → List α → List α
  | v :: vs, a :: rest => if v = verdict then a :: withVerdict verdict vs rest else withVerdict verdict vs rest
  | _, _ => []

def total (items : List α) : Nat := (items.map weight).sum

@[simp] theorem total_cons (a : α) (rest : List α) : total weight (a :: rest) = weight a + total weight rest := by
  unfold total
  rw [List.map_cons, List.sum_cons]

def spent (vs : List Bool) (items : List α) (i : Nat) : Nat :=
  total weight (withVerdict true (vs.take i) (items.take i))

theorem verdicts_length (used : Nat) (items : List α) :
    (verdicts weight budget used items).length = items.length := by
  induction items generalizing used with
  | nil => rfl
  | cons a rest ih =>
    unfold verdicts
    split_ifs <;> rw [List.length_cons, ih, List.length_cons]

theorem verdicts_fit (used : Nat) (items : List α) (i : Nat) (a : α) (there : items[i]? = some a) :
    (verdicts weight budget used items)[i]? = some true ↔
      used + spent weight (verdicts weight budget used items) items i + weight a ≤ budget := by
  induction items generalizing used i with
  | nil => cases there
  | cons b rest ih =>
    cases i with
    | zero =>
      cases there
      unfold verdicts spent
      split_ifs with fits
      · exact iff_of_true rfl fits
      · exact iff_of_false (by simp) fits
    | succ i =>
      rw [List.getElem?_cons_succ] at there
      unfold verdicts
      split_ifs with fits
      · have later := ih (used + weight b) i there
        have moved : spent weight (true :: verdicts weight budget (used + weight b) rest) (b :: rest) (i + 1) =
            weight b + spent weight (verdicts weight budget (used + weight b) rest) rest i := by
          simp [spent, withVerdict]
        rw [List.getElem?_cons_succ, later, moved]
        omega
      · have moved : spent weight (false :: verdicts weight budget used rest) (b :: rest) (i + 1) =
            spent weight (verdicts weight budget used rest) rest i := by
          simp [spent, withVerdict]
        rw [List.getElem?_cons_succ, ih used i there, moved]

theorem total_withVerdict_le (vs : List Bool) (items : List α) (i : Nat) (a : α)
    (there : items[i]? = some a) : spent weight vs items i + weight a ≤ total weight items := by
  induction items generalizing vs i with
  | nil => cases there
  | cons b rest ih =>
    have whole := total_cons weight b rest
    cases i with
    | zero =>
      cases there
      have none : spent weight vs (a :: rest) 0 = 0 := by cases vs <;> rfl
      omega
    | succ i =>
      rw [List.getElem?_cons_succ] at there
      cases vs with
      | nil =>
        have none : spent weight [] (b :: rest) (i + 1) = 0 := rfl
        have later : spent weight [] rest i = 0 := by
          unfold spent
          rw [List.take_nil]
          cases rest.take i <;> rfl
        have bound := ih [] i there
        omega
      | cons v vs =>
        have step : spent weight (v :: vs) (b :: rest) (i + 1) ≤ weight b + spent weight vs rest i := by
          cases v <;> simp [spent, withVerdict]
        have bound := ih vs i there
        omega

theorem total_verdicts_le (used : Nat) (items : List α) (below : used ≤ budget) :
    used + total weight (withVerdict true (verdicts weight budget used items) items) ≤ budget := by
  induction items generalizing used with
  | nil => exact below
  | cons a rest ih =>
    unfold verdicts
    split_ifs with fits
    · have later := ih (used + weight a) fits
      simp only [withVerdict, if_true, total_cons]
      omega
    · exact ih used below

end FirstFit

/-! ### The files of a scan -/

def entryEstimate (file : Bytes × Bytes) : Nat :=
  ((header file.1).length / 4 + 1) + (file.2.length / 4 + 1)

/-- How many bytes a file contributes. -/
def entrySize (file : Bytes × Bytes) : Nat := (header file.1).length + file.2.length

/-- The readable candidates of an area, in the order of the scan: relative path and content. -/
def candidateFiles (scanner : Scanner) (fs : FileSystem) (targetArea : Bytes) : List (Bytes × Bytes) :=
  scanner.files fs targetArea

/-- The budget arithmetic of a scan, with a verdict on each candidate. -/
structure Fills (found : List (Bytes × Bytes)) (tokenBudget : UInt64) (vs : List Bool)
    (result : ScanResult) : Prop where
  whole : vs.length = found.length
  included : result.filesIncluded = (withVerdict true vs found).map Prod.fst
  skipped : result.filesSkippedBudget = (withVerdict false vs found).map Prod.fst
  content : result.concatenatedContent =
    (withVerdict true vs found).flatMap fun file => header file.1 ++ file.2
  tokens : result.approxTokens.toNat = total entryEstimate (withVerdict true vs found)
  within : result.approxTokens ≤ tokenBudget
  estimate : result.filesIncluded ≠ [] → estimateTokens result.concatenatedContent ≤ result.approxTokens
  turns : ∀ i file, found[i]? = some file →
    (vs[i]? = some true ↔ spent entryEstimate vs found i + entryEstimate file ≤ tokenBudget.toNat)
  unwrapped : ∀ i file, found[i]? = some file →
    spent entryEstimate vs found i + entryEstimate file < UInt64.size

theorem estimateTokens_small {text : Bytes} (small : text.length < UInt64.size) :
    (estimateTokens text).toNat = text.length / 4 + 1 := by
  rw [estimateTokens_toNat, Nat.mod_eq_of_lt small]

theorem cost_toNat {file : Bytes × Bytes} (small : entrySize file < 2 ^ 63) :
    (cost file).toNat = entryEstimate file := by
  unfold entrySize at small
  unfold cost entryEstimate
  rw [UInt64.toNat_add, estimateTokens_small (by unfold UInt64.size; omega),
    estimateTokens_small (by unfold UInt64.size; omega)]
  apply Nat.mod_eq_of_lt
  omega

theorem header_length (p : Bytes) : (header p).length = 15 + p.length := by
  have opening : (ascii "\n// ==== ").length = 9 := by decide
  have closing : (ascii " ====\n").length = 6 := by decide
  unfold header
  rw [List.length_append, List.length_append, opening, closing]
  omega

theorem total_estimate_le (found : List (Bytes × Bytes)) :
    total entryEstimate found ≤ total entrySize found := by
  induction found with
  | nil => exact Nat.le_refl _
  | cons file rest ih =>
    have one : entryEstimate file ≤ entrySize file := by
      unfold entryEstimate entrySize
      rw [header_length]
      omega
    rw [total_cons, total_cons]
    exact Nat.add_le_add one ih

theorem size_le_total {found : List (Bytes × Bytes)} {file : Bytes × Bytes} (member : file ∈ found) :
    entrySize file ≤ total entrySize found := by
  induction found with
  | nil => cases member
  | cons first rest ih =>
    rw [total_cons]
    rcases List.mem_cons.1 member with rfl | later
    · exact Nat.le_add_right _ _
    · exact (ih later).trans (Nat.le_add_left _ _)

theorem taken_eq (tokenBudget : UInt64) (found : List (Bytes × Bytes)) (used : UInt64)
    (small : ∀ file ∈ found, entrySize file < 2 ^ 63)
    (room : used.toNat + total entryEstimate found < UInt64.size) :
    let vs := verdicts entryEstimate tokenBudget.toNat used.toNat found
    taken cost tokenBudget used found = withVerdict true vs found ∧
      left cost tokenBudget used found = withVerdict false vs found := by
  induction found generalizing used with
  | nil => exact ⟨rfl, rfl⟩
  | cons file rest ih =>
    obtain ⟨first, later⟩ := List.forall_mem_cons.1 small
    have whole := total_cons entryEstimate file rest
    have added : (used + cost file).toNat = used.toNat + entryEstimate file := by
      rw [UInt64.toNat_add, cost_toNat first]
      apply Nat.mod_eq_of_lt
      unfold UInt64.size at room
      omega
    have same : tokenBudget < used + cost file ↔ ¬ used.toNat + entryEstimate file ≤ tokenBudget.toNat := by
      rw [UInt64.lt_iff_toNat_lt, added]
      omega
    unfold taken left verdicts
    by_cases fits : used.toNat + entryEstimate file ≤ tokenBudget.toNat
    · have next := ih (used + cost file) later (by omega)
      rw [added] at next
      rw [if_neg (fun exceeds => same.1 exceeds fits), if_neg (fun exceeds => same.1 exceeds fits), if_pos fits]
      simp only [withVerdict, if_true, next.1, next.2]
      exact ⟨trivial, by simp⟩
    · have next := ih used later (by omega)
      rw [if_pos (same.2 fits), if_pos (same.2 fits), if_neg fits]
      simp only [withVerdict, if_true, next.1, next.2]
      exact ⟨by simp, trivial⟩

theorem addReadings_tokens (tokenBudget : UInt64) (found : List (Bytes × Bytes)) (before : ScanResult)
    (small : ∀ file ∈ found, entrySize file < 2 ^ 63)
    (room : before.approxTokens.toNat + total entryEstimate found < UInt64.size) :
    (found.foldl (fun result file => addReading tokenBudget result (some file)) before).approxTokens.toNat =
      before.approxTokens.toNat + total entryEstimate (withVerdict true
        (verdicts entryEstimate tokenBudget.toNat before.approxTokens.toNat found) found) := by
  induction found generalizing before with
  | nil => rfl
  | cons file rest ih =>
    obtain ⟨first, later⟩ := List.forall_mem_cons.1 small
    have whole := total_cons entryEstimate file rest
    have added : (before.approxTokens + cost file).toNat =
        before.approxTokens.toNat + entryEstimate file := by
      rw [UInt64.toNat_add, cost_toNat first]
      apply Nat.mod_eq_of_lt
      unfold UInt64.size at room
      omega
    rw [List.foldl_cons]
    have next := ih (addReading tokenBudget before (some file)) later
    unfold verdicts
    by_cases fits : before.approxTokens.toNat + entryEstimate file ≤ tokenBudget.toNat
    · have within : ¬ tokenBudget < before.approxTokens + cost file := by
        rw [UInt64.lt_iff_toNat_lt, added]
        omega
      have spentNow : (addReading tokenBudget before (some file)).approxTokens.toNat =
          before.approxTokens.toNat + entryEstimate file := by
        rw [show addReading tokenBudget before (some file) = _ from if_neg within]
        exact added
      rw [spentNow] at next
      rw [next (by omega), if_pos fits]
      simp only [withVerdict, if_true, total_cons]
      omega
    · have exceeds : tokenBudget < before.approxTokens + cost file := by
        rw [UInt64.lt_iff_toNat_lt, added]
        omega
      have spentNow : (addReading tokenBudget before (some file)).approxTokens = before.approxTokens := by
        rw [show addReading tokenBudget before (some file) = _ from if_pos exceeds]
      rw [spentNow] at next
      rw [next (by omega), if_neg fits]
      simp only [withVerdict, Bool.false_eq_true, if_false]

theorem total_append_length (found : List (Bytes × Bytes)) :
    (found.flatMap fun file => header file.1 ++ file.2).length = total entrySize found := by
  induction found with
  | nil => rfl
  | cons file rest ih =>
    rw [List.flatMap_cons, List.length_append, List.length_append, ih, total_cons]
    rfl

theorem whole_le_parts {found : List (Bytes × Bytes)} (some : found ≠ []) :
    total entrySize found / 4 + 1 ≤ total entryEstimate found := by
  induction found with
  | nil => exact absurd rfl some
  | cons file rest ih =>
    rw [total_cons, total_cons]
    unfold entrySize entryEstimate
    cases rest with
    | nil =>
      have none : total entrySize ([] : List (Bytes × Bytes)) = 0 := rfl
      unfold entrySize at none
      omega
    | cons other rest =>
      have later := ih (by simp)
      unfold entrySize entryEstimate at later
      omega

theorem total_withVerdict (verdict : Bool) (vs : List Bool) (found : List (Bytes × Bytes)) :
    total entrySize (withVerdict verdict vs found) ≤ total entrySize found := by
  induction found generalizing vs with
  | nil => cases vs <;> exact Nat.le_refl _
  | cons file rest ih =>
    cases vs with
    | nil => exact Nat.zero_le _
    | cons v vs =>
      have later := ih vs
      unfold withVerdict
      split_ifs
      · rw [total_cons, total_cons]
        omega
      · rw [total_cons]
        omega

/-- A scan of files that are below `2 ^ 63` bytes, headers included, keeps its books in order, whatever
the budget is. -/
theorem scan_fills (scanner : Scanner) (fs : FileSystem) (targetArea : Bytes) (tokenBudget : UInt64)
    (small : total entrySize (candidateFiles scanner fs targetArea) < 2 ^ 63) :
    ∃ vs, Fills (candidateFiles scanner fs targetArea) tokenBudget vs
      (scanner.scan fs targetArea tokenBudget) := by
  have each : ∀ file ∈ candidateFiles scanner fs targetArea, entrySize file < 2 ^ 63 :=
    fun file member => Nat.lt_of_le_of_lt (size_le_total member) small
  have room : total entryEstimate (candidateFiles scanner fs targetArea) < UInt64.size := by
    have bound := total_estimate_le (candidateFiles scanner fs targetArea)
    unfold UInt64.size
    omega
  have start : (0 : UInt64).toNat + total entryEstimate (candidateFiles scanner fs targetArea) <
      UInt64.size := by simpa using room
  have lists := addReadings_lists tokenBudget (candidateFiles scanner fs targetArea) {}
  have tokens := addReadings_tokens tokenBudget (candidateFiles scanner fs targetArea) {} each start
  obtain ⟨taken, left⟩ := taken_eq tokenBudget (candidateFiles scanner fs targetArea) 0 each start
  rw [show (0 : UInt64).toNat = 0 from rfl] at taken left
  rw [show ({} : ScanResult).approxTokens = 0 from rfl, taken, left] at lists
  rw [show ({} : ScanResult).approxTokens.toNat = 0 from rfl, Nat.zero_add] at tokens
  have run : scanner.scan fs targetArea tokenBudget = (candidateFiles scanner fs targetArea).foldl
      (fun result file => addReading tokenBudget result (some file)) {} := scan_readings scanner fs _ _
  rw [← run] at lists tokens
  refine ⟨verdicts entryEstimate tokenBudget.toNat 0 (candidateFiles scanner fs targetArea),
    verdicts_length _ _ _ _, ?_, ?_, ?_, tokens, ?_, ?_, ?_, ?_⟩
  · simpa using lists.included
  · simpa using lists.skipped
  · simpa using lists.content
  · have bound := total_verdicts_le entryEstimate tokenBudget.toNat 0
      (candidateFiles scanner fs targetArea) (Nat.zero_le _)
    rw [UInt64.le_iff_toNat_le, tokens]
    omega
  · intro something
    have nonempty : withVerdict true (verdicts entryEstimate tokenBudget.toNat 0
        (candidateFiles scanner fs targetArea)) (candidateFiles scanner fs targetArea) ≠ [] := by
      intro none
      apply something
      rw [lists.included, none]
      rfl
    have size : (scanner.scan fs targetArea tokenBudget).concatenatedContent.length =
        total entrySize (withVerdict true (verdicts entryEstimate tokenBudget.toNat 0
          (candidateFiles scanner fs targetArea)) (candidateFiles scanner fs targetArea)) := by
      rw [lists.content]
      exact total_append_length _
    have fewer := total_withVerdict true (verdicts entryEstimate tokenBudget.toNat 0
      (candidateFiles scanner fs targetArea)) (candidateFiles scanner fs targetArea)
    rw [UInt64.le_iff_toNat_le, estimateTokens_small (by unfold UInt64.size; omega), tokens, size]
    exact whole_le_parts nonempty
  · intro i file there
    have fit := verdicts_fit entryEstimate tokenBudget.toNat 0 _ i file there
    rwa [Nat.zero_add] at fit
  · intro i file there
    exact Nat.lt_of_le_of_lt (total_withVerdict_le entryEstimate _ _ i file there) room

/-- The scan of a codebase of two small files, with a budget for one of them. -/
theorem scan_fills_cached : ∃ vs, Fills
    (candidateFiles ⟨Support.Paths.ofBytes (ascii "/r"), defaultExtensions⟩ Samples.cached []) 10 vs
    (Scanner.scan ⟨Support.Paths.ofBytes (ascii "/r"), defaultExtensions⟩ Samples.cached [] 10) :=
  scan_fills ⟨Support.Paths.ofBytes (ascii "/r"), defaultExtensions⟩ Samples.cached [] 10
    (by decide +kernel)

end CppCoder.ScanBudget
