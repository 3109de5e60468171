import CppCoder.Support.Utf8
import Mathlib.Data.List.DropRight

/-! File-system paths: the text of one, the components that a standard library finds in it on a platform
whose only separator is the slash, and the components that a system call reads, up to a null byte. -/

namespace CppCoder.Support.Paths
open Utf8

def slash : UInt8 := 47

def null : UInt8 := 0

def Proper (bytes : Bytes) : Prop :=
  bytes ≠ [] ∧ bytes ≠ ascii "." ∧ bytes ≠ ascii ".." ∧ slash ∉ bytes ∧ null ∉ bytes

instance (bytes : Bytes) : Decidable (Proper bytes) := inferInstanceAs (Decidable (_ ∧ _))

structure Name where
  bytes : Bytes
  proper : Proper bytes
  deriving DecidableEq

def Name.ofAscii (text : String) (proper : Proper (ascii text)) : Name := ⟨ascii text, proper⟩

inductive Part where
  | dot
  | dotdot
  /-- What follows a slash at the end. -/
  | trailing
  | name (n : Name)
  deriving DecidableEq

structure Path where
  text : Bytes
  deriving DecidableEq

def ofBytes (text : Bytes) : Path := ⟨text⟩

def Path.absolute (p : Path) : Bool := decide (p.text.head? = some slash)

def Path.isEmpty (p : Path) : Bool := p.text.isEmpty

/-- The pieces between the slashes, empty ones included. -/
def pieces : Bytes → List Bytes
  | [] => [[]]
  | b :: rest =>
      if b = slash then [] :: pieces rest
      else match pieces rest with
        | [] => [[b]]
        | first :: others => (b :: first) :: others

def named (text : Bytes) : List Bytes := (pieces text).filter (· ≠ [])

/-- The components below the root directory. Runs of slashes separate once; behind one at the end there
is an empty component. -/
def components (text : Bytes) : List Bytes :=
  named text ++ if named text ≠ [] ∧ (pieces text).getLast? = some [] then [[]] else []

/-- The sequence that iterating over a path yields; the root directory is an element of its own. -/
def Path.elements (p : Path) : List Bytes :=
  (if p.absolute then [[slash]] else []) ++ components p.text

def Part.ofPiece (piece : Bytes) : Part :=
  if proper : Proper piece then .name ⟨piece, proper⟩
  else if piece = [] then .trailing
  else if piece = ascii ".." then .dotdot
  else .dot

/-- `c_str`: what a system call is given of a path. -/
def Path.asked (p : Path) : Bytes := p.text.takeWhile (· ≠ null)

def Path.parts (p : Path) : List Part := (components p.asked).map Part.ofPiece

/-- `operator/`: an absolute right-hand side replaces the left-hand side. -/
def join (base added : Path) : Path :=
  if added.absolute then added
  else if base.text = [] ∨ base.text.getLast? = some slash then ⟨base.text ++ added.text⟩
  else ⟨base.text ++ slash :: added.text⟩

/-- `parent_path`: the text up to the slashes before the last component. -/
def Path.parent (p : Path) : Path :=
  let above := (p.text.rdropWhile (· ≠ slash)).rdropWhile (· = slash)
  ⟨if above = [] ∧ p.absolute then [slash] else above⟩

def Path.descend (p : Path) : List Bytes → Path
  | [] => p
  | n :: ns => (join p ⟨n⟩).descend ns

def spell : List Bytes → Bytes
  | [] => []
  | [piece] => piece
  | piece :: rest => piece ++ slash :: spell rest

/-- The components that `lexically_normal` keeps, the innermost first. -/
def collapse (absolute : Bool) : List Bytes → List Bytes → List Bytes
  | stack, [] => stack
  | stack, piece :: rest =>
      if piece = [] ∨ piece = ascii "." then collapse absolute stack rest
      else if piece = ascii ".." then
        match stack with
        | [] => collapse absolute (if absolute then [] else [ascii ".."]) rest
        | top :: below =>
            if top = ascii ".." then collapse absolute (ascii ".." :: stack) rest
            else collapse absolute below rest
      else collapse absolute (piece :: stack) rest

/-- `lexically_normal`, with the trailing separator that a final dot or parent leaves behind. -/
def lexicallyNormal (p : Path) : Path :=
  let parts := components p.text
  let trailing : List Bytes := match parts.getLast? with
    | some last => if last = [] ∨ last = ascii "." ∨ last = ascii ".." then [[]] else []
    | none => []
  let kept := match collapse p.absolute [] parts with
    | [] => if p.absolute ∨ parts = [] then [] else [ascii "."]
    | top :: stack =>
        if top = ascii ".." then (top :: stack).reverse else (top :: stack).reverse ++ trailing
  ⟨(if p.absolute then [slash] else []) ++ spell kept⟩

abbrev Loc := List Name

def Loc.toPath (loc : Loc) : Path := ⟨slash :: spell (loc.reverse.map Name.bytes)⟩

/-- The suffix of a file name from its last dot on, unless the name starts with that dot. -/
def suffix (filename : Bytes) : Bytes :=
  let isDot : UInt8 → Bool := (· = 46)
  if filename = ascii ".." then []
  else match filename.reverse.dropWhile (fun b => !isDot b) with
    | [] => []
    | [_] => []
    | _ :: _ => 46 :: (filename.reverse.takeWhile (fun b => !isDot b)).reverse

/-! ### Pieces -/

theorem pieces_ne_nil (text : Bytes) : pieces text ≠ [] := by
  cases text with
  | nil => exact List.cons_ne_nil _ _
  | cons b rest =>
    simp only [pieces]
    split_ifs
    · exact List.cons_ne_nil _ _
    · split <;> exact List.cons_ne_nil _ _

theorem pieces_append (first second : Bytes) :
    pieces (first ++ slash :: second) = pieces first ++ pieces second := by
  induction first with
  | nil => simp [pieces]
  | cons b rest ih =>
    simp only [List.cons_append, pieces, ih]
    split_ifs
    · rfl
    · obtain ⟨piece, others, split⟩ := List.exists_cons_of_ne_nil (pieces_ne_nil rest)
      rw [split]
      rfl

theorem pieces_whole {piece : Bytes} (whole : slash ∉ piece) : pieces piece = [piece] := by
  induction piece with
  | nil => rfl
  | cons b more ih =>
    simp only [List.mem_cons, not_or] at whole
    simp only [pieces, if_neg (Ne.symm whole.1), ih whole.2]

theorem pieces_spell {parts : List Bytes} (nonempty : parts ≠ []) (whole : ∀ piece ∈ parts, slash ∉ piece) :
    pieces (spell parts) = parts := by
  induction parts with
  | nil => exact absurd rfl nonempty
  | cons piece rest ih =>
    cases rest with
    | nil => exact pieces_whole (whole piece List.mem_cons_self)
    | cons next more =>
      have later := ih (by simp) fun piece member => whole piece (List.mem_cons_of_mem _ member)
      simp only [spell]
      rw [pieces_append, pieces_whole (whole piece List.mem_cons_self), later, List.singleton_append]

theorem named_append (first second : Bytes) :
    named (first ++ slash :: second) = named first ++ named second := by
  unfold named
  rw [pieces_append, List.filter_append]

theorem named_whole {piece : Bytes} (whole : slash ∉ piece) : named piece = if piece = [] then [] else
    [piece] := by
  unfold named
  rw [pieces_whole whole]
  split_ifs with empty <;> simp [empty]

theorem named_eq_nil {text : Bytes} (none : named text = []) : ∀ b ∈ text, b = slash := by
  induction text with
  | nil => simp
  | cons b rest ih =>
    unfold named at none
    simp only [pieces] at none
    split_ifs at none with separator
    · refine List.forall_mem_cons.2 ⟨separator, ih ?_⟩
      simpa [named] using none
    · split at none <;> simp at none

theorem components_append (first : Bytes) {second : Bytes} (some : named second ≠ []) :
    components (first ++ slash :: second) = named first ++ components second := by
  have last : (pieces first ++ pieces second).getLast? = (pieces second).getLast? := by
    rw [List.getLast?_append_of_ne_nil _ (pieces_ne_nil second)]
  unfold components
  rw [named_append, pieces_append, last, List.append_assoc]
  simp [some]

theorem components_eq_named {text : Bytes} (open' : text.getLast? ≠ some slash) :
    components text = named text := by
  unfold components
  rw [if_neg, List.append_nil]
  rintro ⟨some, last⟩
  rcases List.eq_nil_or_concat' text with rfl | ⟨front, b, rfl⟩
  · exact some rfl
  · have letter : slash ∉ [b] := by
      rw [List.mem_singleton]
      rintro rfl
      simp at open'
    obtain ⟨before, rest, split⟩ : ∃ before rest, pieces (front ++ [b]) = before ++ [rest ++ [b]] := by
      clear some last open'
      induction front with
      | nil => exact ⟨[], [], by rw [List.nil_append, pieces_whole letter]; rfl⟩
      | cons c more ih =>
        obtain ⟨before, rest, split⟩ := ih
        simp only [List.cons_append, pieces, split]
        split_ifs
        · exact ⟨[] :: before, rest, rfl⟩
        · cases before with
          | nil => exact ⟨[], c :: rest, rfl⟩
          | cons piece others => exact ⟨(c :: piece) :: others, rest, rfl⟩
    simp [split] at last

theorem mem_components {text piece : Bytes} (member : piece ∈ components text) (some : piece ≠ []) :
    piece ∈ named text := by
  unfold components at member
  rcases List.mem_append.1 member with inner | last
  · exact inner
  · split_ifs at last
    · exact absurd (List.mem_singleton.1 last) some
    · cases last

theorem components_last {above last : Bytes} (open' : above.getLast? ≠ some slash) (whole : slash ∉ last)
    (n : Nat) (some : above ≠ [] ∨ last ≠ []) :
    components (above ++ List.replicate (n + 1) slash ++ last) = named above ++ [last] := by
  have split : above ++ List.replicate (n + 1) slash ++ last =
      (above ++ List.replicate n slash) ++ slash :: last := by
    rw [List.replicate_succ', ← List.append_assoc, List.append_assoc _ [slash]]
    rfl
  have names : named (above ++ List.replicate n slash) = named above := by
    induction n with
    | zero => rw [List.replicate_zero, List.append_nil]
    | succ n ih =>
      rw [List.replicate_succ', ← List.append_assoc, named_append, ih]
      · simp [named, pieces]
      · rw [List.replicate_succ', ← List.append_assoc, List.append_assoc _ [slash]]
        rfl
  rw [split]
  by_cases empty : last = []
  · subst empty
    have inhabited : named above ≠ [] := by
      intro none
      rcases List.eq_nil_or_concat' above with rfl | ⟨front, b, rfl⟩
      · simp at some
      · exact open' (by simp [named_eq_nil none b (by simp)])
    unfold components
    rw [named_append, pieces_append, names]
    have none : named [] = [] := by simp [named, pieces]
    simp [none, inhabited, pieces]
  · have only : named last = [last] := by rw [named_whole whole, if_neg empty]
    rw [components_append _ (by simp [only]), names, components_eq_named, only]
    intro separator
    exact whole (List.mem_of_getLast? separator)

/-! ### Joining and parents -/

theorem named_of_relative {p : Path} (relative : p.absolute = false) (nonempty : p.text ≠ []) :
    named p.text ≠ [] := by
  intro none
  obtain ⟨b, rest, split⟩ := List.exists_cons_of_ne_nil nonempty
  have separator := named_eq_nil none b (by simp [split])
  simp [Path.absolute, split, separator] at relative

theorem join_text {base added : Path} (relative : added.absolute = false) (nonempty : base.text ≠ []) :
    ∃ front, (join base added).text = front ++ slash :: added.text ∧ named front = named base.text ∧
      front <+: base.text ∧ base.text <+: front ++ [slash] := by
  unfold join
  rw [if_neg (by simp [relative])]
  by_cases closed : base.text.getLast? = some slash
  · obtain ⟨front, split⟩ := List.getLast?_eq_some_iff.1 closed
    rw [if_pos (.inr closed), split]
    refine ⟨front, by simp, ?_, List.prefix_append _ _, List.prefix_refl _⟩
    rw [named_append]
    simp [named, pieces]
  · rw [if_neg (by simp [nonempty, closed])]
    exact ⟨base.text, rfl, rfl, List.prefix_refl _, List.prefix_append _ _⟩

theorem named_join {base added : Path} (relative : added.absolute = false) (nonempty : base.text ≠ []) :
    named (join base added).text = named base.text ++ named added.text := by
  obtain ⟨front, text, names, -⟩ := join_text relative nonempty
  rw [text, named_append, names]

theorem components_join {base added : Path} (relative : added.absolute = false)
    (inhabited : base.text ≠ []) (nonempty : added.text ≠ []) :
    components (join base added).text = named base.text ++ components added.text := by
  obtain ⟨front, text, names, -⟩ := join_text relative inhabited
  rw [text, components_append _ (named_of_relative relative nonempty), names]

theorem absolute_join {base added : Path} (relative : added.absolute = false) (nonempty : base.text ≠ []) :
    (join base added).absolute = base.absolute := by
  obtain ⟨b, rest, split⟩ := List.exists_cons_of_ne_nil nonempty
  unfold join
  rw [if_neg (by simp [relative])]
  split_ifs <;> simp [Path.absolute, split]

theorem asked_plain {p : Path} (plain : null ∉ p.text) : p.asked = p.text :=
  List.takeWhile_eq_self_iff.2 fun b member => decide_eq_true fun same => plain (same ▸ member)

theorem parts_plain {p : Path} (plain : null ∉ p.text) :
    p.parts = (named p.text).map Part.ofPiece ∨ p.parts = (named p.text).map Part.ofPiece ++ [.trailing] := by
  unfold Path.parts components
  rw [asked_plain plain, List.map_append]
  split_ifs
  · exact .inr (congrArg _ (by decide))
  · exact .inl (List.append_nil _)

theorem asked_join {base added : Path} (relative : added.absolute = false) (nonempty : base.text ≠ [])
    (plain : null ∉ base.text) : ∃ front, (join base added).asked = front ++ slash :: added.asked ∧
      named front = named base.text ∧ base.text <+: front ++ [slash] := by
  obtain ⟨front, text, names, initial, longer⟩ := join_text relative nonempty
  have clean : ∀ b ∈ front, decide (b ≠ null) = true := fun b member =>
    decide_eq_true fun same => plain (same ▸ initial.subset member)
  refine ⟨front, ?_, names, longer⟩
  unfold Path.asked
  rw [text, List.takeWhile_append_of_pos clean]
  rfl

theorem asked_join_cut {base added : Path} (relative : added.absolute = false) (cut : null ∈ base.text) :
    (join base added).asked = base.asked := by
  obtain ⟨front, text, -, -, longer⟩ := join_text relative (List.ne_nil_of_mem cut)
  obtain ⟨rest, whole⟩ : base.text <+: (join base added).text := by
    refine longer.trans ?_
    rw [text]
    exact ⟨added.text, by simp⟩
  unfold Path.asked
  rw [← whole, List.takeWhile_append, if_neg]
  intro same
  have all := List.takeWhile_eq_self_iff.1 ((List.takeWhile_prefix _).eq_of_length same) null cut
  simp at all

theorem parts_join {base added : Path} (relative : added.absolute = false) (nonempty : base.text ≠ [])
    (plain : null ∉ base.text) :
    ∃ rest, (join base added).parts = (named base.text).map Part.ofPiece ++ rest ∧
      (added.asked ≠ [] → rest = added.parts) ∧ (added.asked = [] → rest = [] ∨ rest = [.trailing]) := by
  obtain ⟨front, asked, names, -⟩ := asked_join relative nonempty plain
  unfold Path.parts
  rw [asked]
  by_cases empty : added.asked = []
  · refine ⟨(if named front ≠ [] then [[]] else []).map Part.ofPiece, ?_, fun some => absurd empty some,
      fun _ => ?_⟩
    · rw [empty, ← List.map_append, ← names]
      unfold components
      rw [named_append, pieces_append]
      simp [named, pieces]
    · split_ifs
      · exact .inr (by decide)
      · exact .inl rfl
  · have inner : named added.asked ≠ [] := by
      refine named_of_relative (p := ⟨added.asked⟩) ?_ empty
      have shorter : added.asked <+: added.text := List.takeWhile_prefix _
      obtain ⟨b, rest, split⟩ := List.exists_cons_of_ne_nil empty
      obtain ⟨more, rejoined⟩ := shorter
      rw [split] at rejoined
      simpa [Path.absolute, split, ← rejoined] using relative
    refine ⟨(components added.asked).map Part.ofPiece, ?_, fun _ => rfl, fun none => absurd none empty⟩
    rw [components_append _ inner, names, List.map_append]

theorem parent_split (p : Path) : ∃ above last : Bytes, above.getLast? ≠ some slash ∧ slash ∉ last ∧
    p.parent.text = (if above = [] ∧ p.absolute then [slash] else above) ∧
    (above = [] ∧ p.text = last ∨ ∃ n, p.text = above ++ List.replicate (n + 1) slash ++ last) := by
  have ends : ∀ text : Bytes, (text.rdropWhile fun b => decide (b = slash)).getLast? ≠ some slash := by
    intro text closed
    obtain ⟨front, split⟩ := List.getLast?_eq_some_iff.1 closed
    have nonempty : text.rdropWhile (fun b => decide (b = slash)) ≠ [] := by simp [split]
    have other := List.rdropWhile_last_not (fun b => decide (b = slash)) text nonempty
    simp [split] at other
  have tail : ∀ text : Bytes, ∃ n, text.rtakeWhile (fun b => decide (b = slash)) =
      List.replicate n slash := by
    intro text
    exact ⟨_, List.eq_replicate_of_mem fun b member => by simpa using List.mem_rtakeWhile_imp member⟩
  refine ⟨(p.text.rdropWhile (· ≠ slash)).rdropWhile (· = slash), p.text.rtakeWhile (· ≠ slash), ends _,
    fun member => by simpa using List.mem_rtakeWhile_imp member, rfl, ?_⟩
  obtain ⟨n, slashes⟩ := tail (p.text.rdropWhile (· ≠ slash))
  have outer : p.text.rdropWhile (· ≠ slash) ++ p.text.rtakeWhile (· ≠ slash) = p.text :=
    List.rdropWhile_append_rtakeWhile
  have inner : (p.text.rdropWhile (· ≠ slash)).rdropWhile (· = slash) ++
      (p.text.rdropWhile (· ≠ slash)).rtakeWhile (· = slash) = p.text.rdropWhile (· ≠ slash) :=
    List.rdropWhile_append_rtakeWhile
  rw [slashes] at inner
  cases n with
  | succ n => exact .inr ⟨n, by rw [inner, outer]⟩
  | zero =>
    rw [List.replicate_zero, List.append_nil] at inner
    -- the text up to the last slash ends in that slash, unless there is none
    have none : p.text.rdropWhile (· ≠ slash) = [] := by
      by_contra some
      have last := List.rdropWhile_last_not (fun b => decide (b ≠ slash)) p.text some
      have closed : (p.text.rdropWhile (· ≠ slash)).getLast? = Option.some slash := by
        rw [List.getLast?_eq_some_getLast some]
        simpa using last
      exact ends _ (inner ▸ closed)
    refine .inl ⟨by rw [inner, none], ?_⟩
    rw [none, List.nil_append] at outer
    exact outer.symm

/-- The components that the directories on the way to a file and the file itself are reached by. Where a
null byte cuts the path before its last component, all of them are directories. -/
def Path.used (p : Path) : List Part :=
  if null ∈ p.parent.text then p.parts ++ [.trailing] else p.parts

theorem parent_prefix (p : Path) : p.parent.text <+: p.text := by
  obtain ⟨above, last, -, -, parent, split⟩ := parent_split p
  rw [parent]
  split_ifs with top
  · obtain ⟨rest, text⟩ := List.head?_eq_some_iff.1 (of_decide_eq_true top.2)
    rw [text]
    exact ⟨rest, rfl⟩
  · rcases split with ⟨rfl, -⟩ | ⟨n, text⟩
    · exact List.nil_prefix
    · rw [text, List.append_assoc]
      exact List.prefix_append _ _

theorem parent_nonempty {p : Path} (below : slash ∈ p.text) : p.parent.text ≠ [] := by
  obtain ⟨above, last, -, whole, parent, split⟩ := parent_split p
  rw [parent]
  intro empty
  split_ifs at empty with top
  rcases split with ⟨-, text⟩ | ⟨n, text⟩
  · exact whole (text ▸ below)
  · refine top ⟨empty, decide_eq_true ?_⟩
    simp [text, empty, List.replicate_succ]

theorem asked_parent (p : Path) : p.parent.asked <+: p.asked := by
  obtain ⟨rest, text⟩ := parent_prefix p
  unfold Path.asked
  rw [← text, List.takeWhile_append]
  split_ifs with whole
  · rw [(List.takeWhile_prefix _).eq_of_length whole]
    exact List.prefix_append _ _
  · exact List.prefix_refl _

theorem absolute_parent {p : Path} (below : slash ∈ p.text) : p.parent.absolute = p.absolute := by
  obtain ⟨rest, text⟩ := parent_prefix p
  obtain ⟨b, more, first⟩ := List.exists_cons_of_ne_nil (parent_nonempty below)
  unfold Path.absolute
  rw [← text, first]
  rfl

/-- A null byte above the last component cuts the path where it cuts the parent. -/
theorem asked_parent_cut {p : Path} (cut : null ∈ p.parent.text) : p.asked = p.parent.asked := by
  obtain ⟨rest, text⟩ := parent_prefix p
  unfold Path.asked
  rw [← text, List.takeWhile_append]
  have shorter : (p.parent.text.takeWhile fun b => decide (b ≠ null)).length ≠ p.parent.text.length := by
    intro same
    have all := List.takeWhile_eq_self_iff.1 ((List.takeWhile_prefix _).eq_of_length same) null cut
    simp at all
  rw [if_neg shorter]

theorem named_slashes (n : Nat) : named (List.replicate (n + 1) slash) = [] := by
  induction n with
  | zero => decide
  | succ n ih =>
    have split : List.replicate (n + 2) slash = [] ++ slash :: List.replicate (n + 1) slash := rfl
    rw [split, named_append, ih]
    decide

theorem components_slashes (n : Nat) : components (List.replicate (n + 1) slash) = [] := by
  unfold components
  rw [named_slashes]
  rfl

theorem parts_parent (p : Path) : p.parent.parts = p.used.dropLast := by
  obtain ⟨above, last, open', whole, parent, split⟩ := parent_split p
  unfold Path.used
  by_cases cut : null ∈ p.parent.text
  · rw [if_pos cut, List.dropLast_concat]
    unfold Path.parts
    rw [asked_parent_cut cut]
  · rw [if_neg cut]
    have clean : null ∉ above := by
      intro member
      rw [parent] at cut
      split_ifs at cut with empty
      · simp [empty.1] at member
      · exact cut member
    have pure : ∀ b ∈ above, decide (b ≠ null) = true := fun b member =>
      decide_eq_true fun same => clean (same ▸ member)
    have upper : p.parent.parts = (named above).map Part.ofPiece := by
      unfold Path.parts
      rw [asked_plain cut, parent]
      split_ifs with top
      · rw [top.1]
        decide
      · rw [components_eq_named open']
    have lower : slash ∉ last.takeWhile (· ≠ null) := fun member =>
      whole ((List.takeWhile_prefix _).subset member)
    rw [upper]
    unfold Path.parts Path.asked
    rcases split with ⟨rfl, text⟩ | ⟨n, text⟩
    · rw [text, components_eq_named fun closed => lower (List.mem_of_getLast? closed), named_whole lower]
      split_ifs <;> rfl
    · have asked : p.text.takeWhile (· ≠ null) =
          above ++ List.replicate (n + 1) slash ++ last.takeWhile (· ≠ null) := by
        rw [text, List.takeWhile_append_of_pos]
        intro b member
        rcases List.mem_append.1 member with up | separator
        · exact pure b up
        · rw [List.eq_of_mem_replicate separator]
          decide
      rw [asked]
      by_cases some : above ≠ [] ∨ last.takeWhile (· ≠ null) ≠ []
      · rw [components_last open' lower n some, List.map_append, List.map_singleton,
          List.dropLast_concat]
      · push Not at some
        rw [some.1, some.2, List.nil_append, List.append_nil, components_slashes]
        rfl

/-! ### Spellings of places and entries -/

theorem components_spell {names : List Bytes} (proper : ∀ name ∈ names, name ≠ [] ∧ slash ∉ name) :
    components (slash :: spell names) = names := by
  rcases List.eq_nil_or_concat' names with rfl | ⟨front, last, rfl⟩
  · decide
  · have inner : pieces (spell (front ++ [last])) = front ++ [last] :=
      pieces_spell (by simp) fun name member => (proper name member).2
    have split : pieces (slash :: spell (front ++ [last])) = [] :: (front ++ [last]) := by
      simp only [pieces, if_true, inner]
    have all : ([] :: (front ++ [last])).filter (· ≠ []) = front ++ [last] := by
      rw [List.filter_cons_of_neg (by simp), List.filter_eq_self.2]
      exact fun name member => by simpa using (proper name member).1
    unfold components named
    rw [split, all, if_neg, List.append_nil]
    rintro ⟨-, closed⟩
    rw [← List.cons_append, List.getLast?_concat, Option.some.injEq] at closed
    exact (proper last (by simp)).1 closed

theorem Name.plain (n : Name) : n.bytes ≠ [] ∧ slash ∉ n.bytes := ⟨n.proper.1, n.proper.2.2.2.1⟩

theorem ofPiece_bytes (n : Name) : Part.ofPiece n.bytes = .name n := dif_pos n.proper

theorem elements_toPath (loc : Loc) : loc.toPath.elements = [slash] :: loc.reverse.map Name.bytes := by
  have names : components (slash :: spell (loc.reverse.map Name.bytes)) = loc.reverse.map Name.bytes := by
    apply components_spell
    intro name member
    obtain ⟨n, -, rfl⟩ := List.mem_map.1 member
    exact n.plain
  unfold Path.elements Loc.toPath
  rw [names]
  rfl

theorem mem_spell {names : List Bytes} {b : UInt8} (member : b ∈ spell names) :
    b = slash ∨ ∃ name ∈ names, b ∈ name := by
  induction names with
  | nil => cases member
  | cons name rest ih =>
    cases rest with
    | nil => exact .inr ⟨name, List.mem_singleton_self _, member⟩
    | cons next more =>
      rcases List.mem_append.1 member with here | later
      · exact .inr ⟨name, List.mem_cons_self, here⟩
      · rcases List.mem_cons.1 later with separator | inner
        · exact .inl separator
        · exact (ih inner).imp id fun ⟨other, among, there⟩ =>
            ⟨other, List.mem_cons_of_mem _ among, there⟩

theorem parts_toPath (loc : Loc) : loc.toPath.parts = loc.reverse.map Part.name := by
  have whole : loc.toPath.asked = loc.toPath.text := by
    apply List.takeWhile_eq_self_iff.2
    intro b member
    refine decide_eq_true fun cut => ?_
    subst cut
    rcases List.mem_cons.1 member with separator | inner
    · exact absurd separator (by decide)
    · rcases mem_spell inner with separator | ⟨name, among, there⟩
      · exact absurd separator (by decide)
      · obtain ⟨n, -, rfl⟩ := List.mem_map.1 among
        exact n.proper.2.2.2.2 there
  have names : components loc.toPath.text = loc.reverse.map Name.bytes := by
    apply components_spell
    intro name member
    obtain ⟨n, -, rfl⟩ := List.mem_map.1 member
    exact n.plain
  unfold Path.parts
  rw [whole, names, List.map_map]
  exact List.map_congr_left fun n _ => ofPiece_bytes n

theorem relative_plain {name : Bytes} (plain : slash ∉ name) : Path.absolute ⟨name⟩ = false := by
  refine decide_eq_false fun head => plain ?_
  exact List.mem_of_mem_head? head

theorem components_descend {p : Path} {ns : List Bytes} (nonempty : ns ≠ [])
    (proper : ∀ n ∈ ns, n ≠ [] ∧ slash ∉ n) :
    components (p.descend ns).text = named p.text ++ ns ∧ named (p.descend ns).text = named p.text ++ ns ∧
      (p.descend ns).absolute = p.absolute := by
  have one : ∀ (p : Path) {n : Bytes}, n ≠ [] → slash ∉ n →
      components (join p ⟨n⟩).text = named p.text ++ [n] ∧ named (join p ⟨n⟩).text = named p.text ++ [n] ∧
        (join p ⟨n⟩).absolute = p.absolute := by
    intro p n some plain
    have relative := relative_plain plain
    have single : named n = [n] := by rw [named_whole plain, if_neg some]
    have open' : n.getLast? ≠ Option.some slash := fun closed => plain (List.mem_of_getLast? closed)
    by_cases empty : p.text = []
    · have alone : join p ⟨n⟩ = ⟨n⟩ := by simp [join, relative, empty]
      have nothing : named [] = [] := by decide
      rw [alone, empty, nothing, components_eq_named open', relative]
      exact ⟨single, single, by simp [Path.absolute, empty]⟩
    · obtain ⟨front, text, names, -⟩ := join_text relative empty
      refine ⟨?_, ?_, absolute_join relative empty⟩
      · rw [components_join relative empty some, components_eq_named open', single]
      · rw [text, named_append, names, single]
  induction ns generalizing p with
  | nil => exact absurd rfl nonempty
  | cons n rest ih =>
    have first := one p (proper n List.mem_cons_self).1 (proper n List.mem_cons_self).2
    cases rest with
    | nil => exact first
    | cons next more =>
      have later := @ih (join p ⟨n⟩) (List.cons_ne_nil _ _)
        fun m member => proper m (List.mem_cons_of_mem _ member)
      simp only [Path.descend] at later ⊢
      rw [first.2.1, first.2.2] at later
      simpa using later

end CppCoder.Support.Paths
