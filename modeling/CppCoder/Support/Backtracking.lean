import Mathlib.Data.List.Basic

/-! Regular expressions as a backtracking matcher reads them: the ways to match at a place, in the order in
which they are tried. A quantifier stands on a single character. -/

namespace CppCoder.Support.Backtracking

variable {α : Type}

inductive Regex (α : Type) where
  | empty
  | chars (accepts : α → Bool) (min : Nat) (max : Option Nat) (greedy : Bool)
  | boundary (word : α → Bool)
  | finish
  | seq (first second : Regex α)
  | alt (first second : Regex α)
  | group (index : Nat) (body : Regex α)

/-- A place in a text: the character before it, what comes after it, and the groups read so far. -/
structure Place (α : Type) where
  last : Option α
  rest : List α
  groups : List (Nat × List α) := []

def Place.advance (c : Place α) (n : Nat) : Place α :=
  { c with last := (c.rest.take n).getLast?.or c.last, rest := c.rest.drop n }

def counts (there min : Nat) (max : Option Nat) (greedy : Bool) : List Nat :=
  let upward := (List.range (max.elim there (Nat.min there) + 1)).drop min
  if greedy then upward.reverse else upward

def Regex.ends : Regex α → Place α → List (Place α)
  | empty, c => [c]
  | chars accepts min max greedy, c =>
      (counts (c.rest.takeWhile accepts).length min max greedy).map c.advance
  | boundary word, c => if c.last.any word ≠ c.rest.head?.any word then [c] else []
  | finish, c => if c.rest.isEmpty then [c] else []
  | seq first second, c => (first.ends c).flatMap second.ends
  | alt first second, c => first.ends c ++ second.ends c
  | group index body, c => (body.ends c).map fun e =>
      { e with groups := (index, c.rest.take (c.rest.length - e.rest.length)) :: e.groups }

def one (accepts : α → Bool) : Regex α := .chars accepts 1 (some 1) true

def literal (same : α → α → Bool) : List α → Regex α
  | [] => .empty
  | a :: rest => .seq (one (same a)) (literal same rest)

def Regex.matchAt (r : Regex α) (last : Option α) (text : List α) : Option (Place α) :=
  (r.ends ⟨last, text, []⟩).head?

structure Match (α : Type) where
  before : List α
  matched : List α
  after : List α
  groups : List (Nat × List α)

def groupOf (groups : List (Nat × List α)) (index : Nat) : List α := (groups.lookup index).getD []

def Match.of (text : List α) (e : Place α) : Match α :=
  ⟨[], text.take (text.length - e.rest.length), e.rest, e.groups⟩

/-- The leftmost match. -/
def Regex.search (r : Regex α) (last : Option α) : List α → Option (Match α)
  | [] => (r.matchAt last []).map (.of [])
  | a :: rest =>
      match r.matchAt last (a :: rest) with
      | some e => some (.of (a :: rest) e)
      | none => (r.search (some a) rest).map fun m => { m with before := a :: m.before }

def Regex.replaceFirst (r : Regex α) (f : List (Nat × List α) → List α) (text : List α) : List α :=
  match r.search none text with
  | none => text
  | some m => m.before ++ f m.groups ++ m.after

/-- Every match is replaced, from left to right; behind an empty match a character is passed over. -/
def Regex.replaceFrom (r : Regex α) (f : List (Nat × List α) → List α) (last : Option α) (text : List α) :
    List α :=
  match r.matchAt last text, text with
  | none, [] => []
  | none, a :: rest => a :: r.replaceFrom f (some a) rest
  | some e, [] => f e.groups
  | some e, a :: rest =>
      if _ : e.rest.length < (a :: rest).length then f e.groups ++ r.replaceFrom f e.last e.rest
      else f e.groups ++ a :: r.replaceFrom f (some a) rest
termination_by text.length
decreasing_by
  · exact Nat.lt_succ_self _
  · assumption
  · exact Nat.lt_succ_self _

def Regex.replaceAll (r : Regex α) (f : List (Nat × List α) → List α) (text : List α) : List α :=
  r.replaceFrom f none text

theorem advance_rest (c : Place α) (n : Nat) : c.rest = c.rest.take n ++ (c.advance n).rest :=
  (List.take_append_drop n c.rest).symm

theorem ends_suffix (r : Regex α) (c e : Place α) (reached : e ∈ r.ends c) : e.rest <:+ c.rest := by
  induction r generalizing c e with
  | empty => exact List.mem_singleton.1 reached ▸ List.suffix_refl _
  | chars accepts min max greedy =>
    obtain ⟨n, -, rfl⟩ := List.mem_map.1 reached
    exact List.drop_suffix n c.rest
  | boundary word =>
    unfold Regex.ends at reached
    split_ifs at reached
    · exact List.mem_singleton.1 reached ▸ List.suffix_refl _
    · cases reached
  | finish =>
    unfold Regex.ends at reached
    split_ifs at reached
    · exact List.mem_singleton.1 reached ▸ List.suffix_refl _
    · cases reached
  | seq first second one two =>
    obtain ⟨d, between, further⟩ := List.mem_flatMap.1 reached
    exact (two d e further).trans (one c d between)
  | alt first second one two =>
    rcases List.mem_append.1 reached with left | right
    · exact one c e left
    · exact two c e right
  | group index body ih =>
    obtain ⟨d, inner, rfl⟩ := List.mem_map.1 reached
    exact ih c d inner

theorem matchAt_suffix {r : Regex α} {last : Option α} {text : List α} {e : Place α}
    (found : r.matchAt last text = some e) : e.rest <:+ text :=
  ends_suffix r ⟨last, text, []⟩ e (List.mem_of_head? found)

theorem take_suffix {text rest : List α} (suffix : rest <:+ text) :
    text = text.take (text.length - rest.length) ++ rest := by
  obtain ⟨taken, rfl⟩ := suffix
  rw [List.length_append, Nat.add_sub_cancel, List.take_left]

theorem search_split {r : Regex α} {last : Option α} {text : List α} {m : Match α}
    (found : r.search last text = some m) : text = m.before ++ m.matched ++ m.after := by
  induction text generalizing last m with
  | nil =>
    obtain ⟨e, here, rfl⟩ := Option.map_eq_some_iff.1 found
    exact take_suffix (matchAt_suffix here)
  | cons a rest ih =>
    unfold Regex.search at found
    cases here : r.matchAt last (a :: rest) with
    | some e =>
      rw [here] at found
      cases found
      exact take_suffix (matchAt_suffix here)
    | none =>
      rw [here] at found
      obtain ⟨later, there, rfl⟩ := Option.map_eq_some_iff.1 found
      have split := ih there
      rw [split]
      rfl

/-! ### The parts of a match -/

theorem chars_end {accepts : α → Bool} {min : Nat} {max : Option Nat} {greedy : Bool} {c e : Place α}
    (reached : e ∈ (Regex.chars accepts min max greedy).ends c) :
    ∃ taken, c.rest = taken ++ e.rest ∧ e.groups = c.groups := by
  obtain ⟨n, -, rfl⟩ := List.mem_map.1 reached
  exact ⟨c.rest.take n, advance_rest c n, rfl⟩

theorem one_ends (accepts : α → Bool) (c : Place α) :
    (one accepts).ends c = if c.rest.head?.any accepts then [c.advance 1] else [] := by
  unfold one Regex.ends
  cases text : c.rest with
  | nil => rfl
  | cons a rest =>
    rw [List.takeWhile_cons, List.head?_cons, Option.any_some]
    split_ifs with accepted
    · have many : counts ((a :: rest.takeWhile accepts).length) 1 (some 1) true = [1] := by
        unfold counts
        simp only [Option.elim_some, List.length_cons, Nat.min_eq_right (Nat.le_add_left 1 _)]
        rfl
      rw [many]
      rfl
    · rfl

theorem one_end {accepts : α → Bool} {c e : Place α} (reached : e ∈ (one accepts).ends c) :
    ∃ a, accepts a = true ∧ c.rest = a :: e.rest ∧ e.groups = c.groups := by
  rw [one_ends] at reached
  split_ifs at reached with accepted
  · cases List.mem_singleton.1 reached
    cases text : c.rest with
    | nil =>
      rw [text] at accepted
      cases accepted
    | cons a rest =>
      rw [text] at accepted
      refine ⟨a, accepted, ?_, rfl⟩
      unfold Place.advance
      rw [text]
      rfl
  · cases reached

theorem seq_end {first second : Regex α} {c e : Place α} (reached : e ∈ (first.seq second).ends c) :
    ∃ d, d ∈ first.ends c ∧ e ∈ second.ends d := List.mem_flatMap.1 reached

theorem group_end {index : Nat} {body : Regex α} {c e : Place α}
    (reached : e ∈ (Regex.group index body).ends c) :
    ∃ d taken, d ∈ body.ends c ∧ c.rest = taken ++ e.rest ∧ e.groups = (index, taken) :: d.groups := by
  obtain ⟨d, inner, rfl⟩ := List.mem_map.1 reached
  exact ⟨d, _, inner, take_suffix (ends_suffix body c d inner), rfl⟩

/-- Every match takes at least one character. -/
def Consumes (r : Regex α) : Prop := ∀ c e, e ∈ r.ends c → e.rest.length < c.rest.length

theorem consumes_one (accepts : α → Bool) : Consumes (one accepts) := by
  intro c e reached
  obtain ⟨a, -, split, -⟩ := one_end reached
  rw [split]
  exact Nat.lt_succ_self _

theorem Consumes.seq {first : Regex α} (consumes : Consumes first) (second : Regex α) :
    Consumes (first.seq second) := by
  intro c e reached
  obtain ⟨d, between, further⟩ := seq_end reached
  exact Nat.lt_of_le_of_lt (ends_suffix second d e further).length_le (consumes c d between)

theorem Consumes.matchAt {r : Regex α} (consumes : Consumes r) (last : Option α) (text : List α)
    (e : Place α) (found : r.matchAt last text = some e) : e.rest.length < text.length :=
  consumes ⟨last, text, []⟩ e (List.mem_of_head? found)

theorem next_accepted {accepts : α → Bool} (c : Place α) {n : Nat}
    (more : n < (c.rest.takeWhile accepts).length) : (c.advance n).rest.head?.any accepts = true := by
  have taken : (c.rest.takeWhile accepts)[n]? = c.rest[n]? := by
    obtain ⟨later, split⟩ := List.takeWhile_prefix (l := c.rest) accepts
    conv_rhs => rw [← split]
    rw [List.getElem?_append_left more]
  change (c.rest.drop n).head?.any accepts = true
  rw [List.head?_drop, ← taken, List.getElem?_eq_getElem more, Option.any_some]
  exact List.all_eq_true.1 List.all_takeWhile _ (List.getElem_mem more)

theorem seq_chars_ends {accepts : α → Bool} {next : Regex α}
    (stops : ∀ d : Place α, d.rest.head?.any accepts = true → next.ends d = []) (min : Nat) (greedy : Bool)
    (c : Place α) : (Regex.seq (.chars accepts min none greedy) next).ends c =
      if min ≤ (c.rest.takeWhile accepts).length then
        next.ends (c.advance (c.rest.takeWhile accepts).length)
      else [] := by
  generalize all : (c.rest.takeWhile accepts).length = n
  have fewer : ∀ k ∈ (List.range n).drop min, next.ends (c.advance k) = [] := by
    intro k member
    have small := List.mem_range.1 (List.mem_of_mem_drop member)
    exact stops _ (next_accepted c (all ▸ small))
  have nothing : ((List.range n).drop min).flatMap (fun k => next.ends (c.advance k)) = [] :=
    List.flatMap_eq_nil_iff.2 fewer
  have run : (Regex.seq (.chars accepts min none greedy) next).ends c =
      (counts n min none greedy).flatMap fun k => next.ends (c.advance k) := by
    rw [← all]
    exact List.flatMap_map c.advance next.ends _
  rw [run]
  split_ifs with enough
  · have upward : (List.range (n + 1)).drop min = (List.range n).drop min ++ [n] := by
      rw [List.range_succ, List.drop_append_of_le_length (by simpa using enough)]
    unfold counts
    simp only [Option.elim_none, upward]
    cases greedy with
    | false => simp [nothing]
    | true => simpa using List.flatMap_eq_nil_iff.1 nothing
  · have short : (List.range (n + 1)).drop min = [] := by
      rw [List.drop_eq_nil_iff, List.length_range]
      omega
    unfold counts
    simp only [Option.elim_none, short]
    cases greedy <;> rfl

theorem advance_takeWhile (accepts : α → Bool) (c : Place α) :
    (c.advance (c.rest.takeWhile accepts).length).rest = c.rest.dropWhile accepts := by
  have split := List.takeWhile_append_dropWhile (p := accepts) (l := c.rest)
  calc c.rest.drop (c.rest.takeWhile accepts).length
      = (c.rest.takeWhile accepts ++ c.rest.dropWhile accepts).drop (c.rest.takeWhile accepts).length := by
        rw [split]
    _ = c.rest.dropWhile accepts := List.drop_left

theorem chars_head (accepts : α → Bool) (c : Place α) :
    ((Regex.chars accepts 0 none true).ends c).head? = some (c.advance (c.rest.takeWhile accepts).length) := by
  unfold Regex.ends counts
  simp only [Option.elim_none, List.drop_zero, if_true, List.range_succ, List.reverse_append,
    List.reverse_singleton, List.singleton_append, List.map_cons, List.head?_cons]

theorem advance_advance (c : Place α) (a b : Nat) : (c.advance a).advance b = c.advance (a + b) := by
  unfold Place.advance
  simp only [List.drop_drop, List.take_add, List.getLast?_append, Option.or_assoc]

def startsWith (same : α → α → Bool) : List α → List α → Bool
  | [], _ => true
  | _, [] => false
  | a :: word, b :: text => same a b && startsWith same word text

theorem literal_ends (same : α → α → Bool) (word : List α) (c : Place α) :
    (literal same word).ends c = if startsWith same word c.rest then [c.advance word.length] else [] := by
  induction word generalizing c with
  | nil => simp [literal, Regex.ends, startsWith, Place.advance]
  | cons a rest ih =>
    have run : (literal same (a :: rest)).ends c =
        ((one (same a)).ends c).flatMap (literal same rest).ends := rfl
    rw [run, one_ends]
    cases text : c.rest with
    | nil => rfl
    | cons b later =>
      have behind : (c.advance 1).rest = later := by
        unfold Place.advance
        rw [text]
        rfl
      change (if same a b = true then [c.advance 1] else []).flatMap (literal same rest).ends =
        if (same a b && startsWith same rest later) = true then [c.advance (rest.length + 1)] else []
      by_cases first : same a b = true
      · rw [if_pos first, List.flatMap_singleton, ih, behind, advance_advance, Nat.add_comm 1, first,
          Bool.true_and]
      · rw [if_neg first, Bool.eq_false_iff.2 first]
        rfl

inductive Replaced (r : Regex α) (f : List (Nat × List α) → List α) : Option α → List α → List α → Prop where
  | done (last : Option α) : Replaced r f last [] []
  | pass {last : Option α} {a : α} {rest out : List α} (unmatched : r.matchAt last (a :: rest) = none)
      (later : Replaced r f (some a) rest out) : Replaced r f last (a :: rest) (a :: out)
  | replace {last : Option α} {matched out : List α} {e : Place α} (taken : matched ≠ [])
      (found : r.matchAt last (matched ++ e.rest) = some e) (later : Replaced r f e.last e.rest out) :
      Replaced r f last (matched ++ e.rest) (f e.groups ++ out)

theorem replaceFrom_replaced {r : Regex α} (consumes : Consumes r)
    (f : List (Nat × List α) → List α) (last : Option α) (text : List α) :
    Replaced r f last text (r.replaceFrom f last text) := by
  induction last, text using Regex.replaceFrom.induct r with
  | case1 last here =>
    rw [Regex.replaceFrom.eq_def, here]
    exact .done last
  | case2 last a rest here ih =>
    rw [Regex.replaceFrom.eq_def, here]
    exact .pass here ih
  | case3 last e here => exact absurd (consumes.matchAt last [] e here) (Nat.not_lt_zero _)
  | case4 last e a rest shorter here ih =>
    have split := take_suffix (matchAt_suffix here)
    have taken : (a :: rest).take ((a :: rest).length - e.rest.length) ≠ [] := by
      intro none
      rw [none, List.nil_append] at split
      rw [← split] at shorter
      exact absurd shorter (Nat.lt_irrefl _)
    have run : r.replaceFrom f last (a :: rest) = f e.groups ++ r.replaceFrom f e.last e.rest := by
      rw [Regex.replaceFrom.eq_def, here]
      exact dif_pos shorter
    have found := here
    rw [split] at found
    have replaced : Replaced r f last ((a :: rest).take ((a :: rest).length - e.rest.length) ++ e.rest)
        (f e.groups ++ r.replaceFrom f e.last e.rest) := .replace taken found ih
    rw [run]
    rwa [← split] at replaced
  | case5 last e a rest long here => exact absurd (consumes.matchAt last _ e here) long

/-! ### What groups hold -/

/-- Every character that a match takes satisfies this. -/
def Regex.Takes (holds : α → Prop) : Regex α → Prop
  | .chars accepts _ _ _ => ∀ a, accepts a = true → holds a
  | .seq first second => first.Takes holds ∧ second.Takes holds
  | .alt first second => first.Takes holds ∧ second.Takes holds
  | .group _ body => body.Takes holds
  | _ => True

def Regex.GroupsTake (holds : α → Prop) : Regex α → Prop
  | .seq first second => first.GroupsTake holds ∧ second.GroupsTake holds
  | .alt first second => first.GroupsTake holds ∧ second.GroupsTake holds
  | .group _ body => body.Takes holds ∧ body.GroupsTake holds
  | _ => True

variable {holds : α → Prop}

theorem chars_takes {accepts : α → Bool} (accepted : ∀ a, accepts a = true → holds a) {min : Nat}
    {max : Option Nat} {greedy : Bool} {c e : Place α}
    (reached : e ∈ (Regex.chars accepts min max greedy).ends c) :
    ∃ taken, c.rest = taken ++ e.rest ∧ ∀ a ∈ taken, holds a := by
  obtain ⟨n, counted, rfl⟩ := List.mem_map.1 reached
  refine ⟨c.rest.take n, advance_rest c n, fun a member => accepted a ?_⟩
  have bound : n ≤ (c.rest.takeWhile accepts).length := by
    have upward : n ∈ (List.range (max.elim (c.rest.takeWhile accepts).length
        (Nat.min (c.rest.takeWhile accepts).length) + 1)).drop min := by
      unfold counts at counted
      dsimp only at counted
      split_ifs at counted
      · exact List.mem_reverse.1 counted
      · exact counted
    have small := List.mem_range.1 (List.mem_of_mem_drop upward)
    cases max with
    | none => exact Nat.le_of_lt_succ small
    | some most => exact Nat.le_trans (Nat.le_of_lt_succ small) (Nat.min_le_left _ _)
  obtain ⟨later, split⟩ := List.takeWhile_prefix (l := c.rest) accepts
  rw [← split, List.take_append_of_le_length bound] at member
  exact List.all_eq_true.1 List.all_takeWhile a (List.mem_of_mem_take member)

theorem ends_takes (r : Regex α) (takes : r.Takes holds) {c e : Place α} (reached : e ∈ r.ends c) :
    ∃ taken, c.rest = taken ++ e.rest ∧ ∀ a ∈ taken, holds a := by
  have stays : ∀ {c e : Place α}, e = c → ∃ taken, c.rest = taken ++ e.rest ∧ ∀ a ∈ taken, holds a := by
    intro c e same
    exact ⟨[], by rw [same, List.nil_append], by simp⟩
  induction r generalizing c e with
  | empty => exact stays (List.mem_singleton.1 reached)
  | chars accepts min max greedy => exact chars_takes takes reached
  | boundary word =>
    unfold Regex.ends at reached
    split_ifs at reached
    · exact stays (List.mem_singleton.1 reached)
    · cases reached
  | finish =>
    unfold Regex.ends at reached
    split_ifs at reached
    · exact stays (List.mem_singleton.1 reached)
    · cases reached
  | seq first second one two =>
    obtain ⟨d, between, further⟩ := seq_end reached
    obtain ⟨before, split, fine⟩ := one takes.1 between
    obtain ⟨after, rest, good⟩ := two takes.2 further
    refine ⟨before ++ after, by rw [split, rest, List.append_assoc], ?_⟩
    exact List.forall_mem_append.2 ⟨fine, good⟩
  | alt first second one two =>
    obtain left | right := List.mem_append.1 reached
    · exact one takes.1 left
    · exact two takes.2 right
  | group index body ih =>
    obtain ⟨d, inner, rfl⟩ := List.mem_map.1 reached
    obtain ⟨taken, split, fine⟩ := ih takes inner
    exact ⟨taken, split, fine⟩

theorem ends_groups (r : Regex α) (takes : r.GroupsTake holds) {c e : Place α} (reached : e ∈ r.ends c)
    (before : ∀ g ∈ c.groups, ∀ a ∈ g.2, holds a) : ∀ g ∈ e.groups, ∀ a ∈ g.2, holds a := by
  induction r generalizing c e with
  | empty => exact List.mem_singleton.1 reached ▸ before
  | chars accepts min max greedy =>
    obtain ⟨taken, -, same⟩ := chars_end reached
    rwa [same]
  | boundary word =>
    unfold Regex.ends at reached
    split_ifs at reached
    · exact List.mem_singleton.1 reached ▸ before
    · cases reached
  | finish =>
    unfold Regex.ends at reached
    split_ifs at reached
    · exact List.mem_singleton.1 reached ▸ before
    · cases reached
  | seq first second one two =>
    obtain ⟨d, between, further⟩ := seq_end reached
    exact two takes.2 further (one takes.1 between before)
  | alt first second one two =>
    obtain left | right := List.mem_append.1 reached
    · exact one takes.1 left before
    · exact two takes.2 right before
  | group index body ih =>
    obtain ⟨d, inner, rfl⟩ := List.mem_map.1 reached
    intro g member
    obtain rfl | old := List.mem_cons.1 member
    · obtain ⟨taken, split, fine⟩ := ends_takes body takes.1 inner
      change ∀ a ∈ c.rest.take (c.rest.length - d.rest.length), holds a
      rw [split, List.length_append, Nat.add_sub_cancel, List.take_left]
      exact fine
    · exact ih takes.2 inner before g old

theorem search_groups {r : Regex α} (takes : r.GroupsTake holds) {last : Option α} {text : List α}
    {m : Match α} (found : r.search last text = some m) (index : Nat) :
    ∀ a ∈ groupOf m.groups index, holds a := by
  have each : ∀ g ∈ m.groups, ∀ a ∈ g.2, holds a := by
    induction text generalizing last m with
    | nil =>
      obtain ⟨e, here, rfl⟩ := Option.map_eq_some_iff.1 found
      exact ends_groups r takes (List.mem_of_head? here) (by simp)
    | cons a rest ih =>
      unfold Regex.search at found
      cases here : r.matchAt last (a :: rest) with
      | some e =>
        rw [here] at found
        cases found
        exact ends_groups r takes (List.mem_of_head? here) (by simp)
      | none =>
        rw [here] at found
        obtain ⟨later, there, rfl⟩ := Option.map_eq_some_iff.1 found
        have groups := ih there
        exact groups
  intro a member
  unfold groupOf at member
  cases looked : m.groups.lookup index with
  | none => simp [looked] at member
  | some taken =>
    obtain ⟨before, after, split, -⟩ := List.lookup_eq_some_iff.1 looked
    rw [looked] at member
    exact each (index, taken) (by simp [split]) a member

end CppCoder.Support.Backtracking
