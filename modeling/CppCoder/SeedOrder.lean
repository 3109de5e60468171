import CppCoder.EditEngine
import CppCoder.ResearchEngine
import CppCoder.Samples
import CppCoder.Support.Arrangement
import Mathlib.Data.List.TakeWhile

/-! Seeding and the order of a walk. The areas of a seed task are sorted and cut to twenty-five, but the
search for each keyword has stopped at its tenth hit by then, or at an entry that it cannot query. -/

namespace CppCoder.SeedOrder
open Support Utf8 Paths Disk FileSystem Walk Arrangement CodebaseScanner Seeding

/-! ### The first few of a list, and of a part of it -/

section Truncation
variable {α : Type} {part whole : List α}

theorem mem_take_of_sublist (within : part.Sublist whole) (once : whole.Nodup) {n : Nat} {a : α}
    (kept : a ∈ part) (early : a ∈ whole.take n) : a ∈ part.take n := by
  induction within generalizing n with
  | slnil => cases kept
  | cons b within ih =>
    obtain ⟨new, once⟩ := List.nodup_cons.1 once
    cases n with
    | zero => simp at early
    | succ n =>
      rw [List.take_succ_cons] at early
      rcases List.mem_cons.1 early with rfl | later
      · exact absurd (within.subset kept) new
      · exact List.take_subset_take_left _ (Nat.le_succ n) (ih once kept later)
  | cons_cons b within ih =>
    obtain ⟨new, once⟩ := List.nodup_cons.1 once
    cases n with
    | zero => simp at early
    | succ n =>
      rw [List.take_succ_cons] at early ⊢
      rcases List.mem_cons.1 early with rfl | later
      · exact List.mem_cons_self
      · rcases List.mem_cons.1 kept with rfl | kept
        · exact List.mem_cons_self
        · exact List.mem_cons_of_mem _ (ih once kept later)

theorem take_eq_of_sublist (within : part.Sublist whole) (once : whole.Nodup) {n : Nat}
    (all : ∀ a ∈ whole.take n, a ∈ part) : part.take n = whole.take n := by
  induction within generalizing n with
  | slnil => rfl
  | cons b within ih =>
    obtain ⟨new, once⟩ := List.nodup_cons.1 once
    cases n with
    | zero => simp
    | succ n => exact absurd (within.subset (all b (by simp))) new
  | cons_cons b within ih =>
    obtain ⟨new, once⟩ := List.nodup_cons.1 once
    cases n with
    | zero => simp
    | succ n =>
      rw [List.take_succ_cons, List.take_succ_cons]
      congr 1
      apply ih once
      intro a early
      have different : a ≠ b := fun same => new (same ▸ List.mem_of_mem_take early)
      have member := all a (by rw [List.take_succ_cons]; exact List.mem_cons_of_mem _ early)
      exact (List.mem_cons.1 member).resolve_left different

theorem mem_take_iff_ahead [DecidableEq α] {n : Nat} {a : α} :
    a ∈ whole.take n ↔ a ∈ whole ∧ (whole.takeWhile (· ≠ a)).length < n := by
  induction whole generalizing n with
  | nil => simp
  | cons b rest ih =>
    cases n with
    | zero => simp
    | succ n =>
      rw [List.take_succ_cons, List.mem_cons, List.mem_cons, ih, List.takeWhile_cons]
      by_cases same : b = a
      · simp [same]
      · simp [same, Ne.symm same]

theorem ahead_le_others [DecidableEq α] (a : α) :
    (whole.takeWhile (· ≠ a)).length ≤ whole.countP (· ≠ a) := by
  have all : ∀ b ∈ whole.takeWhile (· ≠ a), decide (b ≠ a) = true := fun _ => List.mem_takeWhile_imp
  calc
    (whole.takeWhile (· ≠ a)).length = (whole.takeWhile (· ≠ a)).countP (· ≠ a) :=
      (List.countP_eq_length.2 all).symm
    _ ≤ whole.countP (· ≠ a) := (List.takeWhile_sublist _).countP_le

theorem short_of_mem_take {n : Nat} {a : α} (absent : a ∉ part) (early : a ∈ (part ++ whole).take n) :
    part.length < n ∧ a ∈ whole := by
  rw [List.take_append] at early
  rcases List.mem_append.1 early with inside | behind
  · exact absurd (List.mem_of_mem_take inside) absent
  · refine ⟨?_, List.mem_of_mem_take behind⟩
    by_contra full
    rw [Nat.sub_eq_zero_of_le (Nat.le_of_not_lt full), List.take_zero] at behind
    cases behind

end Truncation

def inOrder (areas : List Bytes) : List Bytes := unique (areas.insertionSort (· ≤ ·))

theorem mem_unique (areas : List Bytes) (x : Bytes) : x ∈ unique areas ↔ x ∈ areas := by
  induction areas using unique.induct with
  | case1 => rfl
  | case2 a => rfl
  | case3 a rest ih =>
    rw [unique, if_pos rfl, ih]
    simp
  | case4 a b rest different ih => rw [unique, if_neg different, List.mem_cons, List.mem_cons, ih]

@[simp] theorem mem_inOrder (areas : List Bytes) (x : Bytes) : x ∈ inOrder areas ↔ x ∈ areas :=
  (mem_unique _ x).trans (List.perm_insertionSort _ areas).mem_iff

theorem inOrder_sorted (areas : List Bytes) : (inOrder areas).Pairwise (· ≤ ·) :=
  (List.pairwise_insertionSort _ areas).sublist (unique_sublist _)

theorem inOrder_nodup (areas : List Bytes) : (inOrder areas).Nodup :=
  unique_nodup (List.pairwise_insertionSort _ areas)

theorem inOrder_sublist {few many : List Bytes} (within : ∀ x ∈ few, x ∈ many) :
    (inOrder few).Sublist (inOrder many) := by
  apply List.sublist_of_subperm_of_pairwise _ (inOrder_sorted few) (inOrder_sorted many)
  apply List.subperm_of_subset (inOrder_nodup few)
  intro x member
  rw [mem_inOrder] at member ⊢
  exact within x member

theorem inOrder_congr {one other : List Bytes} (same : ∀ x, x ∈ one ↔ x ∈ other) :
    inOrder one = inOrder other :=
  (inOrder_sublist fun x => (same x).1).antisymm (inOrder_sublist fun x => (same x).2)

def walked (scanner : Scanner) (fs : FileSystem) : List Entry :=
  match fs.resolve scanner.root with
  | .error _ => []
  | .ok place =>
      match fs.kind place with
      | some .dir => entries fs scanner.root place
      | _ => []

def hits (scanner : Scanner) (fs : FileSystem) (keyword : Bytes) : List Bytes :=
  ((walked scanner fs).filter fun entry => !hasExcludedComponent entry.path).filterMap
    (scanner.hit fs keyword)

/-- There is an entry that ends the search early. -/
def Broken (scanner : Scanner) (fs : FileSystem) : Prop :=
  ∃ entry ∈ walked scanner fs, hasExcludedComponent entry.path = false ∧ fails fs entry = true

def Reported (scanner : Scanner) (fs : FileSystem) (keywords : List Bytes) (entry : Entry) (x : Bytes) :
    Prop :=
  entry ∈ walked scanner fs ∧ hasExcludedComponent entry.path = false ∧
    ∃ keyword ∈ keywords, scanner.hit fs keyword entry = some x

variable {scanner : Scanner} {fs fs' : FileSystem} {keywords : List Bytes}

theorem mem_hits {keyword x : Bytes} : x ∈ hits scanner fs keyword ↔
    ∃ entry ∈ walked scanner fs, hasExcludedComponent entry.path = false ∧
      scanner.hit fs keyword entry = some x := by
  unfold hits
  simp only [List.mem_filterMap, List.mem_filter, Bool.not_eq_true', and_assoc]

theorem find_eq (keyword : Bytes) : scanner.findFilesMatchingKeyword fs keyword 10 =
    ((visited fs (walked scanner fs)).filterMap (scanner.hit fs keyword)).take 10 := by
  unfold Scanner.findFilesMatchingKeyword walked
  cases fs.resolve scanner.root with
  | error e => rfl
  | ok place =>
    simp only []
    cases fs.kind place with
    | none => rfl
    | some what =>
      cases what with
      | dir => exact grep_eq keyword 10 [] _ (by decide)
      | leaf _ => rfl

theorem find_subset {keyword x : Bytes} (found : x ∈ scanner.findFilesMatchingKeyword fs keyword 10) :
    x ∈ hits scanner fs keyword := by
  rw [find_eq] at found
  obtain ⟨entry, member, hit⟩ := List.mem_filterMap.1 (List.mem_of_mem_take found)
  have kept := (List.takeWhile_sublist _).subset member
  rw [List.mem_filter, Bool.not_eq_true'] at kept
  exact mem_hits.2 ⟨entry, kept.1, kept.2, hit⟩

theorem find_unbroken (whole : ¬ Broken scanner fs) (keyword : Bytes) :
    scanner.findFilesMatchingKeyword fs keyword 10 = (hits scanner fs keyword).take 10 := by
  have all : visited fs (walked scanner fs) =
      (walked scanner fs).filter fun entry => !hasExcludedComponent entry.path := by
    apply List.takeWhile_eq_self_iff.2
    intro entry member
    rw [List.mem_filter, Bool.not_eq_true'] at member
    rw [Bool.not_eq_true']
    by_contra broken
    exact whole ⟨entry, member.1, member.2, by simpa using broken⟩
  rw [find_eq, all]
  rfl

theorem candidateAreas_eq : candidateAreas scanner fs keywords =
    (inOrder (keywords.flatMap fun kw => scanner.findFilesMatchingKeyword fs kw 10)).take 25 := rfl

theorem source_eq (same : Rearranges fs fs') : scanner.source fs' = scanner.source fs := by
  have kinds : fs'.kind = fs.kind := funext same.kind
  funext entry
  unfold Scanner.source readEntry
  rw [same.settle, kinds]

theorem hit_eq (same : Rearranges fs fs') : scanner.hit fs' = scanner.hit fs := by
  funext keyword entry
  unfold Scanner.hit Scanner.relative
  rw [source_eq same, same.canonicalForm]

theorem fails_eq (same : Rearranges fs fs') : fails fs' = fails fs := by
  funext entry
  unfold fails
  rw [same.settle]

theorem walked_perm (same : Rearranges fs fs') : (walked scanner fs').Perm (walked scanner fs) := by
  unfold walked
  rw [same.resolve]
  cases fs.resolve scanner.root with
  | error e => exact .refl _
  | ok place =>
    simp only [same.kind]
    split
    · exact same.entries scanner.root place
    · exact .refl _

theorem hits_perm (same : Rearranges fs fs') (keyword : Bytes) :
    (hits scanner fs' keyword).Perm (hits scanner fs keyword) := by
  unfold hits
  rw [hit_eq same]
  exact ((walked_perm same).filter _).filterMap _

theorem broken_iff (same : Rearranges fs fs') : Broken scanner fs' ↔ Broken scanner fs := by
  unfold Broken
  simp only [(walked_perm same).mem_iff, fails_eq same]

theorem all_eq (same : Rearranges fs fs') (keywords : List Bytes) :
    inOrder (keywords.flatMap (hits scanner fs')) = inOrder (keywords.flatMap (hits scanner fs)) := by
  apply inOrder_congr
  intro x
  simp only [List.mem_flatMap, (hits_perm same _).mem_iff]

/-! ### Orders that lose an area, or bring it in -/

theorem find_past {before rest : List Entry} (directories : ∀ entry ∈ before, fs.kind entry.loc = some .dir)
    (keyword : Bytes) : (visited fs (before ++ rest)).filterMap (scanner.hit fs keyword) =
      (visited fs rest).filterMap (scanner.hit fs keyword) := by
  induction before with
  | nil => rfl
  | cons entry before ih =>
    obtain ⟨here, later⟩ := List.forall_mem_cons.1 directories
    have status : settle fs entry = .ok entry.loc := by
      unfold settle
      rw [here]
    have sound : fails fs entry = false := by
      unfold fails
      rw [status]
    have nothing : scanner.hit fs keyword entry = none := by
      have unread : readEntry fs entry = none := by
        unfold readEntry
        rw [status]
        simp only [here]
      unfold Scanner.hit Scanner.source
      rw [unread]
      split_ifs <;> rfl
    rw [List.cons_append, visited_cons, sound, if_neg Bool.false_ne_true]
    split_ifs
    · exact ih later
    · rw [List.filterMap_cons, nothing]
      exact ih later

theorem exists_entries {entry : Entry} (met : entry ∈ walked scanner fs) :
    ∃ place, fs.resolve scanner.root = .ok place ∧ fs.kind place = some .dir ∧
      entry ∈ entries fs scanner.root place := by
  unfold walked at met
  cases resolved : fs.resolve scanner.root with
  | error e => simp [resolved] at met
  | ok place =>
    rw [resolved] at met
    cases what : fs.kind place with
    | none => simp [what] at met
    | some kind =>
      cases kind with
      | dir => exact ⟨place, rfl, what, by simpa [what] using met⟩
      | leaf _ => simp [what] at met

theorem walked_eq (same : Rearranges fs fs') {place : Loc} (resolved : fs.resolve scanner.root = .ok place)
    (directory : fs.kind place = some .dir) : walked scanner fs' = entries fs' scanner.root place := by
  unfold walked
  rw [same.resolve, resolved]
  simp only [same.kind, directory]

theorem find_ahead {entry : Entry} (met : entry ∈ walked scanner fs) : ∃ after, ∀ keyword,
    scanner.findFilesMatchingKeyword (moveTo Tree.ahead fs entry.loc) keyword 10 =
      ((visited fs (entry :: after)).filterMap (scanner.hit fs keyword)).take 10 := by
  have same := rearranges_moveTo Tree.ahead fs entry.loc
  obtain ⟨place, resolved, directory, member⟩ := exists_entries met
  obtain ⟨before, after, split, directories⟩ := entries_ahead member
  have visits : visited (moveTo Tree.ahead fs entry.loc) = visited fs := by
    funext found
    unfold visited
    rw [fails_eq same]
  refine ⟨after, fun keyword => ?_⟩
  rw [find_eq, walked_eq same resolved directory, split, visits, hit_eq same, find_past directories]

theorem find_broken {entry : Entry} (met : entry ∈ walked scanner fs)
    (kept : hasExcludedComponent entry.path = false) (broken : fails fs entry = true) (keyword : Bytes) :
    scanner.findFilesMatchingKeyword (moveTo Tree.ahead fs entry.loc) keyword 10 = [] := by
  obtain ⟨after, found⟩ := find_ahead met
  rw [found, visited_cons, kept, broken]
  rfl

theorem hit_sound {keyword x : Bytes} {entry : Entry} (hit : scanner.hit fs keyword entry = some x) :
    fails fs entry = false ∧ ∃ what, fs.kind entry.loc = some (.leaf what) := by
  obtain ⟨⟨file, content⟩, source, -⟩ := Option.bind_eq_some_iff.1 hit
  obtain ⟨-, status, readable⟩ := source_eq_some.1 source
  constructor
  · unfold fails
    rw [status]
  · unfold settle at status
    cases what : fs.kind entry.loc with
    | none => simp [what] at status
    | some kind =>
      cases kind with
      | leaf single => exact ⟨single, rfl⟩
      | dir =>
        simp only [what, Except.ok.injEq] at status
        rw [← status, what] at readable
        cases readable

theorem find_hit {keyword x : Bytes} {entry : Entry} (met : entry ∈ walked scanner fs)
    (kept : hasExcludedComponent entry.path = false) (hit : scanner.hit fs keyword entry = some x) :
    x ∈ scanner.findFilesMatchingKeyword (moveTo Tree.ahead fs entry.loc) keyword 10 := by
  obtain ⟨after, found⟩ := find_ahead met
  rw [found, visited_cons, kept, (hit_sound hit).1, if_neg Bool.false_ne_true, if_neg Bool.false_ne_true,
    List.filterMap_cons, hit]
  exact List.mem_cons_self

theorem hits_behind {entry : Entry} {what : Tree.Leaf} (met : entry ∈ walked scanner fs)
    (single : fs.kind entry.loc = some (.leaf what)) : ∃ before, entry ∉ before ∧
      (∀ other ∈ before, other ∈ walked scanner fs) ∧ ∀ keyword,
      hits scanner (moveTo Tree.behind fs entry.loc) keyword =
        ((before ++ [entry]).filter fun entry => !hasExcludedComponent entry.path).filterMap
          (scanner.hit fs keyword) := by
  have same := rearranges_moveTo Tree.behind fs entry.loc
  obtain ⟨place, resolved, directory, member⟩ := exists_entries met
  obtain ⟨before, split⟩ := entries_behind member single
  have walk := (walked_eq same resolved directory).trans split
  have once : (before ++ [entry]).Nodup := split ▸ (entries_loc_nodup _ scanner.root place).of_map
  refine ⟨before, fun again => ?_, fun other earlier => ?_, fun keyword => ?_⟩
  · exact (List.nodup_append.1 once).2.2 entry again entry (List.mem_singleton_self _) rfl
  · apply (walked_perm same).mem_iff.1
    rw [walk]
    exact List.mem_append_left _ earlier
  · unfold hits
    rw [walk, hit_eq same]

/-! ### When the order does not matter -/

def Sole (scanner : Scanner) (fs : FileSystem) (keywords : List Bytes) (x : Bytes) : Prop :=
  ∀ entry other, Reported scanner fs keywords entry x → Reported scanner fs keywords other x → entry = other

/-- The directories can be read so that, for every keyword, ten hits on others are ahead of the name. -/
def Crowdable (scanner : Scanner) (fs : FileSystem) (keywords : List Bytes) (x : Bytes) : Prop :=
  ∃ fs', Rearranges fs fs' ∧ ∀ keyword ∈ keywords, x ∈ hits scanner fs' keyword →
    10 ≤ ((hits scanner fs' keyword).takeWhile (· ≠ x)).length

/-- A keyword that hits the name hits fewer than ten others; or links lead to the file as well, and one of
its entries is always early enough. -/
def Secure (scanner : Scanner) (fs : FileSystem) (keywords : List Bytes) (x : Bytes) : Prop :=
  (∃ keyword ∈ keywords, x ∈ hits scanner fs keyword ∧ (hits scanner fs keyword).countP (· ≠ x) < 10) ∨
    (¬ Sole scanner fs keywords x ∧ ¬ Crowdable scanner fs keywords x)

/-- No order of reading changes the areas. -/
structure Steady (scanner : Scanner) (fs : FileSystem) (keywords : List Bytes) : Prop where
  unbroken : Broken scanner fs → ∀ keyword ∈ keywords, hits scanner fs keyword = []
  secure : ∀ x ∈ (inOrder (keywords.flatMap (hits scanner fs))).take 25, Secure scanner fs keywords x

theorem sole_of_linkless (plain : fs.tree.linkless = true) (x : Bytes) : Sole scanner fs keywords x := by
  intro entry other one two
  obtain ⟨place, resolved, directory, member⟩ := exists_entries one.1
  obtain ⟨place', resolved', -, member'⟩ := exists_entries two.1
  obtain rfl : place = place' := Except.ok.inj (resolved.symm.trans resolved')
  obtain ⟨whole, ns, -, -, rfl⟩ := (mem_entries entry).1 member
  obtain ⟨-, ns', -, -, rfl⟩ := (mem_entries other).1 member'
  have rooted : Rooted fs scanner.root place := ⟨whole, resolved, directory⟩
  have named : ∀ found, Reported scanner fs keywords found x → x = spell (relativeTo place found.loc) := by
    rintro found ⟨-, -, keyword, -, hit⟩
    obtain ⟨⟨file, content⟩, source, reports⟩ := Option.bind_eq_some_iff.1 hit
    obtain ⟨-, status, -⟩ := source_eq_some.1 source
    have itself : file = found.loc := by
      unfold settle at status
      split at status
      · cases status
      · rename_i target link
        exact absurd link (Tree.look_linkless plain _ target)
      · cases status
      · cases status
        rfl
    rw [← itself, ← relative_rooted rooted]
    dsimp only at reports
    split_ifs at reports
    exact (Option.some.inj reports).symm
  have same := spell_relativeTo_injective ((named _ one).symm.trans (named _ two))
  obtain rfl : ns = ns' := by simpa [below] using same
  rfl

theorem exists_reported {x : Bytes} (member : x ∈ inOrder (keywords.flatMap (hits scanner fs))) :
    ∃ entry, Reported scanner fs keywords entry x := by
  rw [mem_inOrder, List.mem_flatMap] at member
  obtain ⟨keyword, listed, hit⟩ := member
  obtain ⟨entry, met, kept, hit⟩ := mem_hits.1 hit
  exact ⟨entry, met, kept, keyword, listed, hit⟩

theorem found_sublist (same : Rearranges fs fs') (keywords : List Bytes) :
    (inOrder (keywords.flatMap fun kw => scanner.findFilesMatchingKeyword fs' kw 10)).Sublist
      (inOrder (keywords.flatMap (hits scanner fs))) := by
  rw [← all_eq same]
  apply inOrder_sublist
  intro x member
  obtain ⟨keyword, listed, found⟩ := List.mem_flatMap.1 member
  exact List.mem_flatMap.2 ⟨keyword, listed, find_subset found⟩

theorem mem_areas (same : Rearranges fs fs') {x : Bytes}
    (early : x ∈ (inOrder (keywords.flatMap (hits scanner fs))).take 25) :
    x ∈ candidateAreas scanner fs' keywords ↔
      ∃ keyword ∈ keywords, x ∈ scanner.findFilesMatchingKeyword fs' keyword 10 := by
  rw [candidateAreas_eq]
  constructor
  · intro area
    have found := List.mem_of_mem_take area
    rwa [mem_inOrder, List.mem_flatMap] at found
  · intro found
    apply mem_take_of_sublist (found_sublist same keywords) (inOrder_nodup _) _ early
    rwa [mem_inOrder, List.mem_flatMap]

theorem secure_found {x : Bytes} (secure : Secure scanner fs keywords x) (same : Rearranges fs fs') :
    ∃ keyword ∈ keywords, x ∈ (hits scanner fs' keyword).take 10 := by
  rcases secure with ⟨keyword, listed, hit, few⟩ | ⟨-, never⟩
  · refine ⟨keyword, listed, mem_take_iff_ahead.2 ⟨(hits_perm same keyword).mem_iff.2 hit, ?_⟩⟩
    apply Nat.lt_of_le_of_lt (ahead_le_others x)
    rwa [(hits_perm same keyword).countP_eq]
  · by_contra none
    apply never
    refine ⟨fs', same, fun keyword listed hit => ?_⟩
    by_contra few
    exact none ⟨keyword, listed, mem_take_iff_ahead.2 ⟨hit, Nat.lt_of_not_le few⟩⟩

theorem Steady.areas (steady : Steady scanner fs keywords) (same : Rearranges fs fs') :
    candidateAreas scanner fs' keywords = (inOrder (keywords.flatMap (hits scanner fs))).take 25 := by
  rw [candidateAreas_eq]
  apply take_eq_of_sublist (found_sublist same keywords) (inOrder_nodup _)
  intro x early
  rw [mem_inOrder, List.mem_flatMap]
  by_cases broken : Broken scanner fs
  · obtain ⟨entry, met, kept, keyword, listed, hit⟩ := exists_reported (List.mem_of_mem_take early)
    have none := steady.unbroken broken keyword listed
    exact absurd (mem_hits.2 ⟨entry, met, kept, hit⟩) (by simp [none])
  · obtain ⟨keyword, listed, found⟩ := secure_found (steady.secure x early) same
    refine ⟨keyword, listed, ?_⟩
    rwa [find_unbroken fun still => broken ((broken_iff same).1 still)]

theorem few_of_behind {x : Bytes} {entry : Entry} (sole : Sole scanner fs keywords x)
    (reported : Reported scanner fs keywords entry x)
    (found : ∃ keyword ∈ keywords, x ∈ (hits scanner (moveTo Tree.behind fs entry.loc) keyword).take 10) :
    ∃ keyword ∈ keywords, x ∈ hits scanner fs keyword ∧ (hits scanner fs keyword).countP (· ≠ x) < 10 := by
  obtain ⟨keyword, listed, early⟩ := found
  have ⟨met, kept, _, _, hit⟩ := reported
  obtain ⟨what, single⟩ := (hit_sound hit).2
  obtain ⟨before, new, earlier, split⟩ := hits_behind met single
  have same := @hits_perm scanner _ _ (rearranges_moveTo Tree.behind fs entry.loc) keyword
  refine ⟨keyword, listed, same.mem_iff.1 (List.mem_of_mem_take early), ?_⟩
  rw [← same.countP_eq]
  rw [split keyword, List.filter_append, List.filterMap_append] at early ⊢
  have absent : x ∉ (before.filter fun entry => !hasExcludedComponent entry.path).filterMap
      (scanner.hit fs keyword) := by
    intro member
    obtain ⟨other, inside, again⟩ := List.mem_filterMap.1 member
    rw [List.mem_filter, Bool.not_eq_true'] at inside
    have twin := sole entry other reported ⟨earlier other inside.1, inside.2, keyword, listed, again⟩
    exact new (twin ▸ inside.1)
  obtain ⟨room, last⟩ := short_of_mem_take absent early
  have whole : ([entry].filter fun entry => !hasExcludedComponent entry.path).filterMap
      (scanner.hit fs keyword) = [x] := by
    obtain ⟨_, member, here⟩ := List.mem_filterMap.1 last
    obtain rfl := List.mem_singleton.1 (List.mem_of_mem_filter member)
    simp [kept, here]
  have bound := List.countP_le_length (p := fun y => decide (y ≠ x)) (l :=
    (before.filter fun entry => !hasExcludedComponent entry.path).filterMap (scanner.hit fs keyword))
  rw [whole, List.countP_append]
  simp only [ne_eq, decide_not, List.countP_singleton, decide_true, Bool.not_true, Bool.false_eq_true,
    if_false]
  simp only [ne_eq, decide_not] at bound
  omega

section Stable
variable (stable : ∀ fs₁ fs₂, Rearranges fs fs₁ → Rearranges fs fs₂ →
  candidateAreas scanner fs₁ keywords = candidateAreas scanner fs₂ keywords)
include stable

theorem unbroken_of_stable (broken : Broken scanner fs) {keyword : Bytes} (listed : keyword ∈ keywords) :
    hits scanner fs keyword = [] := by
  obtain ⟨entry, met, kept, broken⟩ := broken
  have lost : candidateAreas scanner (moveTo Tree.ahead fs entry.loc) keywords = [] := by
    have nothing : (keywords.flatMap fun kw =>
        scanner.findFilesMatchingKeyword (moveTo Tree.ahead fs entry.loc) kw 10) = [] :=
      List.flatMap_eq_nil_iff.2 fun kw _ => find_broken met kept broken kw
    rw [candidateAreas_eq, nothing]
    rfl
  apply List.eq_nil_iff_forall_not_mem.2
  intro x hit
  obtain ⟨other, there, inside, hit⟩ := mem_hits.1 hit
  have same := stable _ _ (rearranges_moveTo Tree.ahead fs other.loc)
    (rearranges_moveTo Tree.ahead fs entry.loc)
  rw [lost, candidateAreas_eq, List.take_eq_nil_iff] at same
  have member : x ∈ inOrder (keywords.flatMap fun kw =>
      scanner.findFilesMatchingKeyword (moveTo Tree.ahead fs other.loc) kw 10) := by
    rw [mem_inOrder]
    exact List.mem_flatMap.2 ⟨keyword, listed, find_hit there inside hit⟩
  rw [same.resolve_left (by decide)] at member
  cases member

theorem found_of_stable {x : Bytes} (early : x ∈ (inOrder (keywords.flatMap (hits scanner fs))).take 25)
    {entry : Entry} (reported : Reported scanner fs keywords entry x) (same : Rearranges fs fs') :
    ∃ keyword ∈ keywords, x ∈ (hits scanner fs' keyword).take 10 := by
  obtain ⟨met, kept, keyword, listed, hit⟩ := reported
  have whole : ¬ Broken scanner fs := by
    intro broken
    have none := unbroken_of_stable stable broken listed
    exact absurd (mem_hits.2 ⟨entry, met, kept, hit⟩) (by simp [none])
  have first := rearranges_moveTo Tree.ahead fs entry.loc
  have area := (mem_areas first early).2 ⟨keyword, listed, find_hit met kept hit⟩
  rw [stable _ _ first same, mem_areas same early] at area
  obtain ⟨keyword, listed, found⟩ := area
  rw [find_unbroken fun still => whole ((broken_iff same).1 still)] at found
  exact ⟨keyword, listed, found⟩

theorem steady_of_stable : Steady scanner fs keywords := by
  refine ⟨fun broken keyword listed => unbroken_of_stable stable broken listed, fun x early => ?_⟩
  obtain ⟨entry, reported⟩ := exists_reported (List.mem_of_mem_take early)
  have always := fun fs' (same : Rearranges fs fs') => found_of_stable stable early reported same
  by_cases sole : Sole scanner fs keywords x
  · exact .inl (few_of_behind sole reported (always _ (rearranges_moveTo Tree.behind fs entry.loc)))
  · right
    refine ⟨sole, ?_⟩
    rintro ⟨fs', same, crowded⟩
    obtain ⟨keyword, listed, found⟩ := always fs' same
    obtain ⟨hit, few⟩ := mem_take_iff_ahead.1 found
    exact absurd (crowded keyword listed hit) (Nat.not_le_of_lt few)

end Stable

theorem stable_iff : (∀ fs₁ fs₂, Rearranges fs fs₁ → Rearranges fs fs₂ →
    candidateAreas scanner fs₁ keywords = candidateAreas scanner fs₂ keywords) ↔
      Steady scanner fs keywords := by
  refine ⟨steady_of_stable, fun steady fs₁ fs₂ one two => ?_⟩
  calc
    candidateAreas scanner fs₁ keywords = (inOrder (keywords.flatMap (hits scanner fs))).take 25 :=
      steady.areas one
    _ = candidateAreas scanner fs₂ keywords := (steady.areas two).symm

theorem seedInitialTasks_eq_iff {id successCriteria : String} {goal : Bytes} :
    seedInitialTasks scanner fs id successCriteria goal keywords =
        seedInitialTasks scanner fs' id successCriteria goal keywords ↔
      candidateAreas scanner fs keywords = candidateAreas scanner fs' keywords := by
  constructor
  · intro same
    unfold seedInitialTasks at same
    dsimp only at same
    split_ifs at same with none none' none'
    · rw [none, none']
    · have targets := congrArg (List.map Types.Task.repeatTargets) same
      simpa using targets
  · intro same
    unfold seedInitialTasks
    rw [same]

def eleventh : Name := .ofAscii "k.h" (by decide)

/-- A codebase `/r` with eleven files, all of which have the keyword in them. -/
def crowded : FileSystem where
  tree := .sub Samples.r
    (.leaf (.ofAscii "a.h" (by decide)) (.file (ascii "x") true)
    (.leaf (.ofAscii "b.h" (by decide)) (.file (ascii "x") true)
    (.leaf (.ofAscii "c.h" (by decide)) (.file (ascii "x") true)
    (.leaf (.ofAscii "d.h" (by decide)) (.file (ascii "x") true)
    (.leaf (.ofAscii "e.h" (by decide)) (.file (ascii "x") true)
    (.leaf (.ofAscii "f.h" (by decide)) (.file (ascii "x") true)
    (.leaf (.ofAscii "g.h" (by decide)) (.file (ascii "x") true)
    (.leaf (.ofAscii "h.h" (by decide)) (.file (ascii "x") true)
    (.leaf (.ofAscii "i.h" (by decide)) (.file (ascii "x") true)
    (.leaf (.ofAscii "j.h" (by decide)) (.file (ascii "x") true)
    (.leaf eleventh (.file (ascii "x") true) .nil))))))))))) .nil
  distinct := by decide
  cwd := []

def crowdedOtherwise : FileSystem := moveTo Tree.ahead crowded [eleventh, Samples.r]

def crowdedScanner : Scanner := ⟨ofBytes (ascii "/r"), defaultExtensions⟩

end CppCoder.SeedOrder
