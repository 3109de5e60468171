import CppCoder.ChatPage
import CppCoder.Support.Backtracking

/-! What the chat page makes of a message before it becomes HTML: the text is escaped, then the spans
between backticks are put into tags. No tag is cut, and no angle bracket of the message is left. -/

namespace CppCoder.ChatRendering
open Support Utf8 JsonText Backtracking ChatPage

def character (c : Nat) : Regex Nat := one (· == c)

def escapeHtml (s : Text) : Text :=
  let s := (character 38).replaceAll (fun _ => lit "&amp;") s
  let s := (character 60).replaceAll (fun _ => lit "&lt;") s
  (character 62).replaceAll (fun _ => lit "&gt;") s

def isLanguage (c : Nat) : Bool :=
  (97 ≤ c && c ≤ 122) || (65 ≤ c && c ≤ 90) || (48 ≤ c && c ≤ 57) || c == 95 || c == 43 || c == 45

def fence : Regex Nat := .seq (character 96) (.seq (character 96) (character 96))

/-- A fence, a language, a line break if there is one, and as little as possible up to the next fence. -/
def blockPattern : Regex Nat :=
  .seq fence (.seq (.group 1 (.chars isLanguage 0 none true))
    (.seq (.chars (· == 10) 0 (some 1) true) (.seq (.group 2 (.chars (fun _ => true) 0 none false)) fence)))

def lastNewline : Regex Nat := .seq (character 10) .finish

def block (groups : List (Nat × Text)) : Text :=
  lit "<pre><code>" ++ lastNewline.replaceFirst (fun _ => []) (groupOf groups 2) ++ lit "</code></pre>"

def inlinePattern : Regex Nat :=
  .seq (character 96) (.seq (.group 1 (.chars (fun c => c != 96 && c != 10) 1 none true)) (character 96))

def inlineCode (groups : List (Nat × Text)) : Text := lit "<code>" ++ groupOf groups 1 ++ lit "</code>"

def renderContent (raw : Text) : Text :=
  let escaped := escapeHtml raw
  let withBlocks := blockPattern.replaceAll block escaped
  inlinePattern.replaceAll inlineCode withBlocks

/-! ### Tagged text -/

inductive Tag where
  | pre
  | preEnd
  | code
  | codeEnd

def Tag.text : Tag → Text
  | pre => lit "<pre>"
  | preEnd => lit "</pre>"
  | code => lit "<code>"
  | codeEnd => lit "</code>"

inductive Piece where
  | char (c : Nat)
  | tag (t : Tag)

def Piece.text : Piece → Text
  | char c => [c]
  | tag t => t.text

def Piece.char? : Piece → Option Nat
  | char c => some c
  | tag _ => none

def flat (pieces : List Piece) : Text := pieces.flatMap Piece.text

/-- What is not in a tag. -/
def chars (pieces : List Piece) : Text := pieces.filterMap Piece.char?

def plain (text : Text) : List Piece := text.map .char

@[simp] theorem flat_append (first second : List Piece) : flat (first ++ second) = flat first ++ flat second :=
  List.flatMap_append

@[simp] theorem chars_append (first second : List Piece) :
    chars (first ++ second) = chars first ++ chars second := List.filterMap_append

@[simp] theorem flat_cons (piece : Piece) (rest : List Piece) : flat (piece :: rest) = piece.text ++ flat rest :=
  List.flatMap_cons

@[simp] theorem chars_nil : chars [] = [] := rfl

@[simp] theorem chars_tag (t : Tag) (rest : List Piece) : chars (.tag t :: rest) = chars rest := rfl

@[simp] theorem chars_char (c : Nat) (rest : List Piece) : chars (.char c :: rest) = c :: chars rest := rfl

@[simp] theorem flat_plain (text : Text) : flat (plain text) = text := by
  induction text with
  | nil => rfl
  | cons c rest ih =>
    change c :: flat (plain rest) = c :: rest
    rw [ih]

@[simp] theorem chars_plain (text : Text) : chars (plain text) = text := by
  induction text with
  | nil => rfl
  | cons c rest ih =>
    change c :: chars (plain rest) = c :: rest
    rw [ih]

theorem tag_unquoted (t : Tag) : 96 ∉ t.text := by
  cases t <;> decide

theorem tag_cons (t : Tag) : ∃ rest, t.text = 60 :: rest := by
  cases t <;> exact ⟨_, rfl⟩

theorem cut_at_quote {pieces : List Piece} {before after : Text}
    (split : flat pieces = before ++ 96 :: after) :
    ∃ first second, pieces = first ++ .char 96 :: second ∧ flat first = before ∧ flat second = after := by
  induction pieces generalizing before with
  | nil => exact absurd split (by simp [flat])
  | cons piece rest ih =>
    rw [flat_cons] at split
    cases piece with
    | char c =>
      cases before with
      | nil =>
        obtain ⟨rfl, same⟩ := List.cons.inj split
        exact ⟨[], rest, rfl, rfl, same⟩
      | cons b before =>
        obtain ⟨rfl, same⟩ := List.cons.inj split
        obtain ⟨first, second, rfl, whole, later⟩ := ih same
        exact ⟨.char c :: first, second, rfl, by rw [flat_cons, whole]; rfl, later⟩
    | tag t =>
      -- the backtick is not in the tag
      rcases List.append_eq_append_iff.1 split with ⟨more, inside, same⟩ | ⟨more, inside, same⟩
      · obtain ⟨first, second, rfl, whole, later⟩ := ih same
        exact ⟨.tag t :: first, second, rfl, by rw [flat_cons, whole]; exact inside.symm, later⟩
      · cases more with
        | nil =>
          obtain ⟨first, second, rfl, whole, later⟩ := ih (show flat rest = [] ++ 96 :: after from same.symm)
          refine ⟨.tag t :: first, second, rfl, ?_, later⟩
          rw [flat_cons, whole, List.append_nil]
          exact inside.trans (List.append_nil _)
        | cons b more =>
          obtain ⟨rfl, -⟩ := List.cons.inj same
          exact absurd (show 96 ∈ t.text by rw [show t.text = _ from inside]; simp) (tag_unquoted t)

theorem unmatched_character {c a : Nat} {last : Option Nat} {rest : Text}
    (unmatched : (character c).matchAt last (a :: rest) = none) : a ≠ c := by
  rintro rfl
  unfold Regex.matchAt character at unmatched
  rw [one_ends] at unmatched
  simp at unmatched

theorem absent_of_replaced {c d : Nat} {f : List (Nat × Text) → Text} {last : Option Nat} {text out : Text}
    (replaced : Replaced (character c) f last text out) (clean : ∀ groups, d ∉ f groups)
    (absent : d = c ∨ d ∉ text) : d ∉ out := by
  induction replaced with
  | done => exact List.not_mem_nil
  | pass unmatched later ih =>
    rw [List.mem_cons, not_or]
    rcases absent with rfl | absent
    · exact ⟨Ne.symm (unmatched_character unmatched), ih (.inl rfl)⟩
    · rw [List.mem_cons, not_or] at absent
      exact ⟨absent.1, ih (.inr absent.2)⟩
  | replace taken found later ih =>
    rw [List.mem_append, not_or]
    refine ⟨clean _, ih (absent.imp id fun absent member => absent ?_)⟩
    exact List.mem_append_right _ member

theorem replaceAll_character (c : Nat) (f : List (Nat × Text) → Text) (text : Text) :
    Replaced (character c) f none text ((character c).replaceAll f text) :=
  replaceFrom_replaced (consumes_one _) f none text

theorem escapeHtml_clean (s : Text) : 60 ∉ escapeHtml s ∧ 62 ∉ escapeHtml s := by
  unfold escapeHtml
  dsimp only
  constructor
  · apply absent_of_replaced (replaceAll_character _ _ _) (fun _ => by decide)
    exact .inr (absent_of_replaced (replaceAll_character _ _ _) (fun _ => by decide) (.inl rfl))
  · exact absent_of_replaced (replaceAll_character _ _ _) (fun _ => by decide) (.inl rfl)

theorem replaceFirst_sublist (r : Regex Nat) (text : Text) :
    (r.replaceFirst (fun _ => []) text).Sublist text := by
  unfold Regex.replaceFirst
  cases found : r.search none text with
  | none => exact .refl _
  | some m =>
    have split := search_split found
    dsimp only
    rw [List.append_nil]
    conv_rhs => rw [split]
    exact ((List.sublist_append_left m.before m.matched).append_right m.after)

theorem character_end {c : Nat} {p e : Place Nat} (reached : e ∈ (character c).ends p) :
    p.rest = c :: e.rest ∧ e.groups = p.groups := by
  obtain ⟨a, same, split, kept⟩ := one_end reached
  rw [beq_iff_eq] at same
  exact ⟨same ▸ split, kept⟩

theorem fence_end {p e : Place Nat} (reached : e ∈ fence.ends p) :
    p.rest = [96, 96, 96] ++ e.rest ∧ e.groups = p.groups := by
  obtain ⟨q, first, later⟩ := seq_end reached
  obtain ⟨r, second, third⟩ := seq_end later
  obtain ⟨one, kept⟩ := character_end first
  obtain ⟨two, kept'⟩ := character_end second
  obtain ⟨three, kept''⟩ := character_end third
  exact ⟨by rw [one, two, three]; rfl, kept''.trans (kept'.trans kept)⟩

theorem block_end {p e : Place Nat} (reached : e ∈ blockPattern.ends p) :
    ∃ before after, p.rest = before ++ groupOf e.groups 2 ++ after ++ e.rest := by
  obtain ⟨a, opening, reached⟩ := seq_end reached
  obtain ⟨b, language, reached⟩ := seq_end reached
  obtain ⟨c, broken, reached⟩ := seq_end reached
  obtain ⟨d, code, closing⟩ := seq_end reached
  obtain ⟨opens, -⟩ := fence_end opening
  obtain ⟨-, named, -, tagged, -⟩ := group_end language
  obtain ⟨line, breaks, -⟩ := chars_end broken
  obtain ⟨q, inside, -, holds, noted⟩ := group_end code
  obtain ⟨closes, kept⟩ := fence_end closing
  have group : groupOf e.groups 2 = inside := by
    rw [kept, noted]
    rfl
  refine ⟨[96, 96, 96] ++ named ++ line, [96, 96, 96], ?_⟩
  rw [group, opens, tagged, breaks, holds, closes]
  simp only [List.append_assoc]

theorem blockPattern_consumes : Consumes blockPattern :=
  ((consumes_one _).seq _).seq _

theorem blocks_tagged {last : Option Nat} {text out : Text}
    (replaced : Replaced blockPattern block last text out) :
    ∃ pieces, flat pieces = out ∧ (chars pieces).Sublist text := by
  induction replaced with
  | done => exact ⟨[], rfl, .slnil⟩
  | @pass last a rest out unmatched later ih =>
    obtain ⟨pieces, whole, from_⟩ := ih
    exact ⟨.char a :: pieces, by rw [flat_cons, whole]; rfl, from_.cons_cons a⟩
  | @replace last matched out e taken found later ih =>
    obtain ⟨pieces, whole, from_⟩ := ih
    obtain ⟨before, after, split⟩ := block_end (List.mem_of_head? found)
    have code := replaceFirst_sublist lastNewline (groupOf e.groups 2)
    have inside : (groupOf e.groups 2).Sublist matched := by
      rw [List.append_cancel_right (show matched ++ e.rest = _ from split)]
      exact (List.sublist_append_right before _).trans (List.sublist_append_left _ after)
    refine ⟨[.tag .pre, .tag .code] ++ plain (lastNewline.replaceFirst (fun _ => []) (groupOf e.groups 2)) ++
      [.tag .codeEnd, .tag .preEnd] ++ pieces, ?_, ?_⟩
    · simp only [flat_append, flat_plain, whole]
      rfl
    · simp only [chars_append, chars_plain, chars_tag, chars_nil, List.nil_append, List.append_nil]
      exact (code.trans inside).append from_

/-! ### Inline code -/

theorem inline_end {p e : Place Nat} (reached : e ∈ inlinePattern.ends p) :
    p.rest = 96 :: groupOf e.groups 1 ++ 96 :: e.rest := by
  obtain ⟨a, opening, reached⟩ := seq_end reached
  obtain ⟨b, code, closing⟩ := seq_end reached
  obtain ⟨opens, -⟩ := character_end opening
  obtain ⟨q, inside, -, holds, noted⟩ := group_end code
  obtain ⟨closes, kept⟩ := character_end closing
  have group : groupOf e.groups 1 = inside := by
    rw [kept, noted]
    rfl
  rw [group, opens, holds, closes]
  rfl

theorem inlinePattern_consumes : Consumes inlinePattern := (consumes_one _).seq _

theorem inline_tagged {last : Option Nat} {text out : Text}
    (replaced : Replaced inlinePattern inlineCode last text out) :
    ∀ (part : Text) (pieces : List Piece), 96 ∉ part → text = part ++ flat pieces →
      ∃ pieces', out = part ++ flat pieces' ∧ (chars pieces').Sublist (chars pieces) := by
  induction replaced with
  | done =>
    intro part pieces _ split
    obtain ⟨rfl, -⟩ := List.append_eq_nil_iff.1 split.symm
    exact ⟨[], rfl, List.nil_sublist _⟩
  | @pass last a rest out unmatched later ih =>
    intro part pieces unquoted split
    cases part with
    | cons b part =>
      obtain ⟨rfl, same⟩ := List.cons.inj split
      rw [List.mem_cons, not_or] at unquoted
      obtain ⟨pieces', rfl, from_⟩ := ih part pieces unquoted.2 same
      exact ⟨pieces', rfl, from_⟩
    | nil =>
      cases pieces with
      | nil => cases split
      | cons piece pieces =>
        cases piece with
        | char c =>
          obtain ⟨rfl, same⟩ := List.cons.inj split
          obtain ⟨pieces', whole, from_⟩ := ih [] pieces List.not_mem_nil same
          exact ⟨.char a :: pieces', by rw [whole]; rfl, from_.cons_cons a⟩
        | tag t =>
          obtain ⟨part, tagged⟩ := tag_cons t
          have unquoted := tag_unquoted t
          rw [flat_cons, show (Piece.tag t).text = _ from tagged] at split
          rw [tagged, List.mem_cons, not_or] at unquoted
          obtain ⟨rfl, same⟩ := List.cons.inj split
          obtain ⟨pieces', whole, from_⟩ := ih part pieces unquoted.2 same
          refine ⟨.tag t :: pieces', ?_, from_⟩
          rw [flat_cons, show (Piece.tag t).text = _ from tagged, whole]
          rfl
  | @replace last matched out e taken found later ih =>
    intro part pieces unquoted split
    have quoted := inline_end (List.mem_of_head? found)
    rw [show matched ++ e.rest = _ from split] at quoted
    cases part with
    | cons b part =>
      obtain ⟨rfl, -⟩ := List.cons.inj quoted
      exact absurd List.mem_cons_self unquoted
    | nil =>
      obtain ⟨before, rest, rfl, nothing, further⟩ :=
        cut_at_quote (show flat pieces = [] ++ 96 :: (groupOf e.groups 1 ++ 96 :: e.rest) from quoted)
      obtain ⟨code, behind, rfl, inside, after⟩ := cut_at_quote further
      obtain ⟨pieces', whole, from_⟩ := ih [] behind List.not_mem_nil after.symm
      refine ⟨.tag .code :: (code ++ .tag .codeEnd :: pieces'), ?_, ?_⟩
      · simp only [flat_cons, flat_append, inside, List.nil_append]
        rw [show out = flat pieces' from whole]
        simp only [inlineCode, List.append_assoc]
        rfl
      · simp only [chars_append, chars_tag, chars_char]
        have skipped : (chars code ++ chars pieces').Sublist (96 :: (chars code ++ 96 :: chars behind)) :=
          ((List.Sublist.refl _).append (from_.cons 96)).cons 96
        exact skipped.trans (List.sublist_append_right _ _)

def isAngle (c : Nat) : Prop := c = 60 ∨ c = 62

/-- The character at a position is inside an intact tag. -/
def InTag (text : Text) (i : Nat) : Prop :=
  ∃ (t : Tag) (before after : Text), text = before ++ t.text ++ after ∧ before.length ≤ i ∧
    i < before.length + t.text.length

theorem inTag_of_angle {pieces : List Piece} (clean : ∀ c ∈ chars pieces, ¬ isAngle c) {i c : Nat}
    (there : (flat pieces)[i]? = some c) (angle : isAngle c) : InTag (flat pieces) i := by
  induction pieces generalizing i with
  | nil => cases there
  | cons piece rest ih =>
    rw [flat_cons] at there
    have later : ∀ c ∈ chars rest, ¬ isAngle c := by
      intro d member
      cases piece with
      | char b => exact clean d (List.mem_cons_of_mem b member)
      | tag t => exact clean d member
    by_cases inside : i < piece.text.length
    · rw [List.getElem?_append_left inside] at there
      cases piece with
      | char b =>
        have same : c ∈ [b] := List.mem_of_getElem? there
        rw [List.mem_singleton.1 same] at angle
        exact absurd angle (clean b List.mem_cons_self)
      | tag t =>
        refine ⟨t, [], flat rest, rfl, Nat.zero_le _, ?_⟩
        rw [List.length_nil, Nat.zero_add]
        exact inside
    · rw [List.getElem?_append_right (Nat.le_of_not_lt inside)] at there
      obtain ⟨t, before, after, split, low, high⟩ := ih later there
      refine ⟨t, piece.text ++ before, after, ?_, ?_, ?_⟩
      · rw [flat_cons, split]
        simp only [List.append_assoc]
      · rw [List.length_append]
        omega
      · rw [List.length_append]
        omega

/-- A rendered message is made of the four tags and of characters of the escaped message, in order; that has
no angle bracket, so every angle bracket that is shown is part of an intact tag. -/
theorem renderContent_tagged (raw : Text) :
    (∃ pieces, renderContent raw = flat pieces ∧ (chars pieces).Sublist (escapeHtml raw)) ∧
    (∀ c ∈ escapeHtml raw, ¬ isAngle c) ∧
    ∀ i c, (renderContent raw)[i]? = some c → isAngle c → InTag (renderContent raw) i := by
  have first : Replaced blockPattern block none (escapeHtml raw)
      (blockPattern.replaceAll block (escapeHtml raw)) :=
    replaceFrom_replaced blockPattern_consumes _ none _
  obtain ⟨blocks, whole, from_⟩ := blocks_tagged first
  have second : Replaced inlinePattern inlineCode none (flat blocks) (renderContent raw) := by
    rw [whole]
    exact replaceFrom_replaced inlinePattern_consumes _ none _
  obtain ⟨pieces, rendered, from_'⟩ := inline_tagged second [] blocks List.not_mem_nil rfl
  rw [List.nil_append] at rendered
  have escaped : ∀ c ∈ escapeHtml raw, ¬ isAngle c := by
    rintro c member (rfl | rfl)
    · exact (escapeHtml_clean raw).1 member
    · exact (escapeHtml_clean raw).2 member
  have clean : ∀ c ∈ chars pieces, ¬ isAngle c :=
    fun c member => escaped c ((from_'.trans from_).subset member)
  refine ⟨⟨pieces, rendered, from_'.trans from_⟩, escaped, fun i c there angle => ?_⟩
  rw [rendered] at there ⊢
  exact inTag_of_angle clean there angle

end CppCoder.ChatRendering
