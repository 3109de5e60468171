import CppCoder.FactExtractor

/-! Which word becomes a name. The copula in a name pattern may be left out, so where nothing that is a name
comes after it, the matcher goes back and takes the copula itself. -/

namespace CppCoder.ExtractedNames
open Support Utf8 Backtracking CodebaseScanner FactExtractor

/-- The word behind some white space, if it begins with a letter, and what comes after it. -/
def nameIn (text : Bytes) : Option (Bytes × Bytes) :=
  if 1 ≤ (text.takeWhile isSpace).length then
    match text.dropWhile isSpace with
    | [] => none
    | a :: rest =>
        if isLetter a then some (a :: rest.takeWhile isNameByte, rest.dropWhile isNameByte) else none
  else none

def spaced (letters : String) (text : Bytes) : Bool :=
  decide (1 ≤ (text.takeWhile isSpace).length) &&
    startsWith sameLetter (ascii letters) (text.dropWhile isSpace)

/-- What comes after white space and the whole word `is`, if the text begins with them. -/
def afterIs (text : Bytes) : Option Bytes :=
  let behind := (text.dropWhile isSpace).drop 2
  if spaced "is" text && !behind.head?.any isWord then some behind else none

def nameAfter (text : Bytes) : Option (Bytes × Bytes) :=
  ((if startsWith sameLetter (ascii "'s") text then nameIn (text.drop 2) else none).or
    (if spaced "is" text then nameIn ((text.dropWhile isSpace).drop 2) else none)).or (nameIn text)

def occursAt (phrase : String) (last : Option UInt8) (text : Bytes) : Bool :=
  decide (last.any isWord ≠ text.head?.any isWord) && startsWith sameLetter (ascii phrase) text

/-- Some text behind a phrase begins, after `'s` or nothing, with white space and a letter. -/
def named (text : Bytes) : Bool :=
  (nameIn text).isSome || (startsWith sameLetter (ascii "'s") text && (nameIn (text.drop 2)).isSome)

def firstNamed (phrase : String) : Option UInt8 → Bytes → Option Bytes
  | _, [] => none
  | last, a :: rest =>
      let behind := (a :: rest).drop (ascii phrase).length
      if occursAt phrase last (a :: rest) && named behind then some behind
      else firstNamed phrase (some a) rest

/-! ### What the pattern matches -/

theorem byte_cases (holds : UInt8 → Bool) (all : ∀ n < 256, holds (UInt8.ofNat n) = true) (b : UInt8) :
    holds b = true := by
  have here := all b.toNat b.toNat_lt
  rwa [UInt8.ofNat_toNat] at here

theorem space_apart {b : UInt8} (space : isSpace b = true) :
    isLetter b = false ∧ sameLetter 105 b = false ∧ sameLetter 39 b = false := by
  have all := byte_cases
    (fun b => !isSpace b || (!isLetter b && !sameLetter 105 b && !sameLetter 39 b)) (by decide +kernel) b
  simp only [space, Bool.not_true, Bool.false_or, Bool.and_eq_true, Bool.not_eq_true'] at all
  exact ⟨all.1.1, all.1.2, all.2⟩

theorem letter_of_copula {b : UInt8} (same : sameLetter 105 b = true) : isLetter b = true := by
  have all := byte_cases (fun b => !sameLetter 105 b || isLetter b) (by decide +kernel) b
  simpa only [same, Bool.not_true, Bool.false_or] using all

theorem word_ends (text : String) (d : Place UInt8) : (word text).ends d =
    if startsWith sameLetter (ascii text) d.rest then [d.advance (ascii text).length] else [] :=
  literal_ends sameLetter (ascii text) d

def yields (found : Option (Place UInt8)) : Option (List (Nat × Bytes) × Bytes) :=
  found.map fun e => (e.groups, e.rest)

theorem name_yields (e : Place UInt8) : yields (name.ends e).head? =
    match e.rest with
    | [] => none
    | a :: rest =>
        if isLetter a then some ((1, a :: rest.takeWhile isNameByte) :: e.groups, rest.dropWhile isNameByte)
        else none := by
  have run : name.ends e = (((one isLetter).ends e).flatMap (Regex.chars isNameByte 0 none true).ends).map
      fun d => { d with groups := (1, e.rest.take (e.rest.length - d.rest.length)) :: d.groups } := rfl
  rw [run, one_ends]
  cases text : e.rest with
  | nil => rfl
  | cons a rest =>
    rw [List.head?_cons, Option.any_some]
    have behind : (e.advance 1).rest = rest := by
      unfold Place.advance
      rw [text]
      rfl
    dsimp only
    split_ifs
    · have greedy := chars_head isNameByte (e.advance 1)
      have left := advance_takeWhile isNameByte (e.advance 1)
      rw [behind] at greedy left
      have split : a :: rest = (a :: rest.takeWhile isNameByte) ++ rest.dropWhile isNameByte := by
        rw [List.cons_append, List.takeWhile_append_dropWhile]
      have taken : (a :: rest).take ((a :: rest).length - (rest.dropWhile isNameByte).length) =
          a :: rest.takeWhile isNameByte := by
        rw [split, List.length_append, Nat.add_sub_cancel, List.take_left]
      rw [List.flatMap_singleton, List.head?_map, greedy]
      simp only [yields, Option.map_some, left, taken]
      rfl
    · rfl

theorem spaces_name_yields (d : Place UInt8) : yields ((Regex.seq spaces name).ends d).head? =
    (nameIn d.rest).map fun found => ((1, found.1) :: d.groups, found.2) := by
  have stops : ∀ e : Place UInt8, e.rest.head?.any isSpace = true → name.ends e = [] := by
    intro e space
    have none : (one isLetter).ends e = [] := by
      rw [one_ends]
      cases text : e.rest with
      | nil => rfl
      | cons a rest =>
        rw [text, List.head?_cons, Option.any_some] at space
        rw [List.head?_cons, Option.any_some, (space_apart space).1]
        rfl
    unfold name
    simp only [Regex.ends, none, List.flatMap_nil, List.map_nil]
  unfold spaces
  rw [seq_chars_ends stops]
  unfold nameIn
  split_ifs with some
  · rw [name_yields, advance_takeWhile]
    cases d.rest.dropWhile isSpace with
    | nil => rfl
    | cons a rest =>
      dsimp only
      split_ifs <;> rfl
  · rfl

theorem spaces_is_ends (d : Place UInt8) : (Regex.seq spaces (word "is")).ends d =
    if spaced "is" d.rest then [d.advance ((d.rest.takeWhile isSpace).length + 2)] else [] := by
  have stops : ∀ e : Place UInt8, e.rest.head?.any isSpace = true → (word "is").ends e = [] := by
    intro e space
    rw [word_ends]
    cases text : e.rest with
    | nil => rfl
    | cons a rest =>
      rw [text, List.head?_cons, Option.any_some] at space
      have unlike : startsWith sameLetter (ascii "is") (a :: rest) = false := by
        change (sameLetter 105 a && _) = false
        rw [(space_apart space).2.1, Bool.false_and]
      rw [unlike]
      rfl
  unfold spaces spaced
  rw [seq_chars_ends stops]
  by_cases some : 1 ≤ (d.rest.takeWhile isSpace).length
  · rw [if_pos some, word_ends, advance_takeWhile, advance_advance, decide_eq_true some, Bool.true_and]
    rfl
  · rw [if_neg some, decide_eq_false some]
    rfl

theorem tail_yields (d : Place UInt8) :
    yields ((Regex.seq (.alt (.alt (word "'s") (.seq spaces (word "is"))) .empty) (.seq spaces name)).ends
      d).head? = (nameAfter d.rest).map fun found => ((1, found.1) :: d.groups, found.2) := by
  have run : (Regex.seq (.alt (.alt (word "'s") (.seq spaces (word "is"))) .empty) (.seq spaces name)).ends d =
      (((word "'s").ends d).flatMap (Regex.seq spaces name).ends ++
        ((Regex.seq spaces (word "is")).ends d).flatMap (Regex.seq spaces name).ends) ++
          (Regex.seq spaces name).ends d := by
    change ((((word "'s").ends d) ++ (Regex.seq spaces (word "is")).ends d) ++ [d]).flatMap _ = _
    rw [List.flatMap_append, List.flatMap_append, List.flatMap_singleton]
  have first : yields (((word "'s").ends d).flatMap (Regex.seq spaces name).ends).head? =
      (if startsWith sameLetter (ascii "'s") d.rest then nameIn (d.rest.drop 2) else none).map
        fun found => ((1, found.1) :: d.groups, found.2) := by
    rw [word_ends]
    split_ifs
    · rw [List.flatMap_singleton, spaces_name_yields]
      rfl
    · rfl
  have second : yields (((Regex.seq spaces (word "is")).ends d).flatMap (Regex.seq spaces name).ends).head? =
      (if spaced "is" d.rest then nameIn ((d.rest.dropWhile isSpace).drop 2) else none).map
        fun found => ((1, found.1) :: d.groups, found.2) := by
    rw [spaces_is_ends]
    split_ifs
    · have behind : (d.advance ((d.rest.takeWhile isSpace).length + 2)).rest =
          (d.rest.dropWhile isSpace).drop 2 := by
        rw [← advance_advance, ← advance_takeWhile]
        rfl
      rw [List.flatMap_singleton, spaces_name_yields, behind]
      rfl
    · rfl
  unfold nameAfter
  rw [run, List.head?_append, List.head?_append]
  unfold yields at *
  rw [Option.map_or, Option.map_or, Option.map_or, Option.map_or, first, second]
  exact congrArg _ (spaces_name_yields d)

theorem namePattern_yields (phrase : String) (last : Option UInt8) (text : Bytes) :
    yields ((namePattern phrase).matchAt last text) =
      if occursAt phrase last text then
        (nameAfter (text.drop (ascii phrase).length)).map fun found => ([(1, found.1)], found.2)
      else none := by
  have run : (namePattern phrase).ends ⟨last, text, []⟩ =
      ((if last.any isWord ≠ text.head?.any isWord then [⟨last, text, []⟩] else []).flatMap
        (word phrase).ends).flatMap
      (Regex.seq (.alt (.alt (word "'s") (.seq spaces (word "is"))) .empty) (.seq spaces name)).ends :=
    (List.flatMap_assoc).symm
  unfold Regex.matchAt occursAt
  rw [run]
  by_cases edge : last.any isWord ≠ text.head?.any isWord
  · rw [if_pos edge, List.flatMap_singleton, decide_eq_true edge, Bool.true_and]
    rw [word_ends]
    split_ifs
    · rw [List.flatMap_singleton, tail_yields]
      rfl
    · rfl
  · rw [if_neg edge, decide_eq_false edge]
    rfl

/-! ### Which occurrence a name is taken from -/

theorem nameAfter_isSome (text : Bytes) : (nameAfter text).isSome = named text := by
  have copula : spaced "is" text = true → (nameIn text).isSome = true := by
    intro begins
    unfold spaced at begins
    rw [Bool.and_eq_true, decide_eq_true_eq] at begins
    unfold nameIn
    rw [if_pos begins.1]
    cases behind : text.dropWhile isSpace with
    | nil =>
      rw [behind] at begins
      exact absurd begins.2 Bool.false_ne_true
    | cons a rest =>
      rw [behind] at begins
      have letter : sameLetter 105 a = true := (Bool.and_eq_true_iff.1 begins.2).1
      dsimp only
      rw [letter_of_copula letter]
      rfl
  unfold nameAfter named
  rw [Option.isSome_or, Option.isSome_or]
  cases begins : spaced "is" text with
  | true => rw [copula begins, Bool.or_true, Bool.true_or]
  | false =>
    cases startsWith sameLetter (ascii "'s") text with
    | true => simp [Bool.or_comm]
    | false => simp

/-- What comes after the phrase in a match. -/
def behind (phrase : String) (m : Match UInt8) : Bytes :=
  (m.matched ++ m.after).drop (ascii phrase).length

theorem search_firstNamed {phrase : String} (spoken : ascii phrase ≠ []) (last : Option UInt8) (text : Bytes) :
    ((namePattern phrase).search last text).map (fun m => (behind phrase m, captured m, m.after)) =
      (firstNamed phrase last text).bind fun tail => (nameAfter tail).map fun found => (tail, found) := by
  induction text generalizing last with
  | nil =>
    have absent : startsWith sameLetter (ascii phrase) [] = false := by
      cases word : ascii phrase with
      | nil => exact absurd word spoken
      | cons a rest => rfl
    have unmatched : (namePattern phrase).matchAt last [] = none := by
      have nothing := namePattern_yields phrase last []
      rw [occursAt, absent, Bool.and_false] at nothing
      exact Option.map_eq_none_iff.1 nothing
    unfold Regex.search
    rw [unmatched]
    rfl
  | cons a rest ih =>
    have here := namePattern_yields phrase last (a :: rest)
    unfold Regex.search firstNamed
    cases found : (namePattern phrase).matchAt last (a :: rest) with
    | none =>
      have passed : (occursAt phrase last (a :: rest) &&
          named ((a :: rest).drop (ascii phrase).length)) = false := by
        rw [found] at here
        rw [← nameAfter_isSome]
        split_ifs at here with occurs
        · rw [Option.map_eq_none_iff.1 here.symm, Option.isSome_none, Bool.and_false]
        · rw [Bool.eq_false_iff.2 occurs, Bool.false_and]
      dsimp only
      rw [passed, if_neg Bool.false_ne_true, ← ih, Option.map_map]
      rfl
    | some e =>
      rw [found] at here
      split_ifs at here with occurs
      · obtain ⟨name, taken, same⟩ := Option.map_eq_some_iff.1 here.symm
        have named_ : named ((a :: rest).drop (ascii phrase).length) = true := by
          rw [← nameAfter_isSome, taken]
          rfl
        have whole := take_suffix (matchAt_suffix found)
        dsimp only
        rw [occurs, named_, Bool.and_true, if_pos rfl, Option.map_some, Option.bind_some, taken,
          Option.map_some]
        have groups : e.groups = [(1, name.1)] := (congrArg Prod.fst same).symm
        have left : e.rest = name.2 := (congrArg Prod.snd same).symm
        unfold behind captured Match.of
        dsimp only
        rw [← whole, groups, left]
        rfl
      · cases here

/-- With the whole word `is` behind the phrase, the name is the word after it, or else begins with it. -/
theorem nameAfter_copula {text follows : Bytes} (after : afterIs text = some follows) :
    nameAfter text = (nameIn follows).or (nameIn text) := by
  unfold afterIs at after
  dsimp only at after
  split_ifs at after with begins
  cases after
  rw [Bool.and_eq_true] at begins
  have spaces := begins.1
  unfold spaced at spaces
  rw [Bool.and_eq_true, decide_eq_true_eq] at spaces
  have apart : startsWith sameLetter (ascii "'s") text = false := by
    cases text with
    | nil => rfl
    | cons a rest =>
      by_cases space : isSpace a = true
      · change (sameLetter 39 a && _) = false
        rw [(space_apart space).2.2, Bool.false_and]
      · have none : (a :: rest).takeWhile isSpace = [] := List.takeWhile_cons_of_neg space
        rw [none] at spaces
        exact absurd spaces.1 (by decide)
  unfold nameAfter
  rw [apart, if_neg Bool.false_ne_true, begins.1, if_pos rfl, Option.none_or]

/-- Where the whole word `is` follows the phrase that a match is about, the match holds the word after it. -/
def TakesWordAfterIs (phrase : String) (m : Match UInt8) : Prop :=
  ∀ follows, afterIs (behind phrase m) = some follows → ∃ rest, nameIn follows = some (captured m, rest)

/-- The first occurrence of the phrase that is followed by `'s` or nothing, white space and a letter is not
one followed by white space and a whole word `is` that no white space and letter follow. -/
def NoBareCopula (phrase : String) (message : Bytes) : Prop :=
  ∀ tail follows, firstNamed phrase none message = some tail → afterIs tail = some follows →
    (nameIn follows).isSome = true

theorem firstNamed_named {phrase : String} {last : Option UInt8} {text tail : Bytes}
    (found : firstNamed phrase last text = some tail) : named tail = true := by
  induction text generalizing last with
  | nil => cases found
  | cons a rest ih =>
    unfold firstNamed at found
    dsimp only at found
    split_ifs at found with here
    · cases found
      exact (Bool.and_eq_true_iff.1 here).2
    · exact ih found

theorem takes_iff {phrase : String} (spoken : ascii phrase ≠ []) (message : Bytes) :
    (∀ m, (namePattern phrase).search none message = some m → TakesWordAfterIs phrase m) ↔
      NoBareCopula phrase message := by
  have link := search_firstNamed spoken none message
  constructor
  · intro takes tail follows first after
    have isNamed := firstNamed_named first
    rw [← nameAfter_isSome] at isNamed
    obtain ⟨found, taken⟩ := Option.isSome_iff_exists.1 isNamed
    rw [first, Option.bind_some, taken] at link
    obtain ⟨m, matched, same⟩ := Option.map_eq_some_iff.1 link
    cases same
    obtain ⟨rest, word⟩ := takes m matched follows after
    rw [word]
    rfl
  · intro bare m matched follows after
    rw [matched] at link
    obtain ⟨tail, first, taken⟩ := Option.bind_eq_some_iff.1 link.symm
    obtain ⟨found, held, same⟩ := Option.map_eq_some_iff.1 taken
    cases same
    obtain ⟨word, next⟩ := Option.isSome_iff_exists.1 (bare _ follows first after)
    have settled := nameAfter_copula after
    rw [next, Option.some_or, held] at settled
    cases settled
    exact ⟨_, next⟩

/-- Both name facts, where they are found, are about the right word. -/
structure NamesRight (message : Bytes) : Prop where
  user : ∀ m, userName.pattern.search none message = some m →
    formatUserName m ∈ extractFacts message ∧ TakesWordAfterIs "my name" m
  assistant : ∀ m, assistantName.pattern.search none message = some m →
    formatAssistantName m ∈ extractFacts message ∧ TakesWordAfterIs "your name" m

theorem fact_extracted {p : FactPattern} (listed : p ∈ patterns) {message : Bytes} {m : Match UInt8}
    (matched : p.pattern.search none message = some m) : p.format m ∈ extractFacts message := by
  unfold extractFacts
  rw [List.mem_filterMap]
  exact ⟨p, listed, by rw [matched]; rfl⟩

theorem namesRight_iff (message : Bytes) : NamesRight message ↔
    (∀ m, userName.pattern.search none message = some m → TakesWordAfterIs "my name" m) ∧
      ∀ m, assistantName.pattern.search none message = some m → TakesWordAfterIs "your name" m := by
  constructor
  · intro right
    exact ⟨fun m matched => (right.user m matched).2, fun m matched => (right.assistant m matched).2⟩
  · rintro ⟨user, assistant⟩
    refine ⟨fun m matched => ⟨?_, user m matched⟩, fun m matched => ⟨?_, assistant m matched⟩⟩
    · exact fact_extracted (show userName ∈ patterns from List.mem_cons_self) matched
    · exact fact_extracted (show assistantName ∈ patterns from
        List.mem_cons_of_mem _ List.mem_cons_self) matched

/-- No fact takes the copula for a name exactly when both phrases are without a bare copula. -/
theorem extractFacts_names (message : Bytes) :
    NamesRight message ↔ NoBareCopula "my name" message ∧ NoBareCopula "your name" message := by
  have mine := takes_iff (show ascii "my name" ≠ [] by decide) message
  have yours := takes_iff (show ascii "your name" ≠ [] by decide) message
  rw [namesRight_iff]
  exact and_congr mine yours

/-- A number is no name, so the copula is taken. -/
theorem copula_extracted :
    extractFacts (ascii "My name is 42") = [ascii "The user's name is is."] ∧
      ¬ NamesRight (ascii "My name is 42") := by
  refine ⟨by decide +kernel, fun right => ?_⟩
  have bare := (takes_iff (show ascii "my name" ≠ [] by decide) _).1 ((namesRight_iff _).1 right).1
  have word := bare (ascii " is 42") (ascii " 42") (by decide +kernel) (by decide +kernel)
  revert word
  decide +kernel

end CppCoder.ExtractedNames
