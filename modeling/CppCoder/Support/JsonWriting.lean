import CppCoder.Support.JsonText

/-! `JSON.stringify` for documents without numbers, and that `JSON.parse` reads what it writes. -/

namespace CppCoder.Support.JsonText

inductive Document where
  | word (w : Word)
  | str (s : Text)
  | arr (items : List Document)
  | obj (members : List (Text × Document))

mutual

def Document.value : Document → Value
  | .word w => w.value
  | .str s => .str s
  | .arr items => .arr (valueItems items)
  | .obj members => .obj (valueMembers members)

def valueItems : List Document → List Value
  | [] => []
  | item :: rest => item.value :: valueItems rest

def valueMembers : List (Text × Document) → List (Text × Value)
  | [] => []
  | (key, member) :: rest => (key, member.value) :: valueMembers rest

end

def hexChar (d : Nat) : Nat := if d < 10 then 48 + d else 87 + d

/-- Four hexadecimal digits behind `\u`. -/
def hexEscape (c : Nat) : Text :=
  [92, 117, hexChar (c / 4096), hexChar (c / 256 % 16), hexChar (c / 16 % 16), hexChar (c % 16)]

def isHigh (c : Nat) : Bool := 0xD800 ≤ c && c < 0xDC00

def isLow (c : Nat) : Bool := 0xDC00 ≤ c && c < 0xE000

def quoteUnit (c : Nat) : Text :=
  if c = 34 then [92, 34]
  else if c = 92 then [92, 92]
  else if c = 8 then [92, 98]
  else if c = 12 then [92, 102]
  else if c = 10 then [92, 110]
  else if c = 13 then [92, 114]
  else if c = 9 then [92, 116]
  else if c < 32 ∨ isHigh c ∨ isLow c then hexEscape c
  else [c]

def quoteUnits : Text → Text
  | [] => []
  | [c] => quoteUnit c
  | c :: d :: rest =>
      if isHigh c ∧ isLow d then c :: d :: quoteUnits rest else quoteUnit c ++ quoteUnits (d :: rest)

def quote (s : Text) : Text := [34] ++ quoteUnits s ++ [34]

mutual

def Document.text : Document → Text
  | .word w => w.text
  | .str s => quote s
  | .arr items => [91] ++ textItems items ++ [93]
  | .obj members => [123] ++ textMembers members ++ [125]

def textItems : List Document → Text
  | [] => []
  | item :: rest => item.text ++ textMore rest

def textMore : List Document → Text
  | [] => []
  | item :: rest => [44] ++ item.text ++ textMore rest

def textMembers : List (Text × Document) → Text
  | [] => []
  | (key, member) :: rest => quote key ++ [58] ++ member.text ++ textFurther rest

def textFurther : List (Text × Document) → Text
  | [] => []
  | (key, member) :: rest => [44] ++ quote key ++ [58] ++ member.text ++ textFurther rest

end

/-! ### Reading what was written -/

theorem hexDigit_hexChar : ∀ d < 16, hexDigit (hexChar d) = some d := by decide

def inString (stack : List Frame) (isKey : Bool) (chars : Text) : State := ⟨stack, .string isKey chars .plain⟩

variable (stack : List Frame) (isKey : Bool) (chars : Text)

theorem step_hex (count value : Nat) {d : Nat} (small : d < 16) :
    step ⟨stack, .string isKey chars (.hex count value)⟩ (hexChar d) =
      some (if count = 3 then inString stack isKey (chars ++ [16 * value + d])
        else ⟨stack, .string isKey chars (.hex (count + 1) (16 * value + d))⟩) := by
  simp only [step, stepString]
  rw [hexDigit_hexChar d small]
  rfl

theorem read_hexEscape {c : Nat} (small : c < 65536) :
    read (inString stack isKey chars) (hexEscape c) = some (inString stack isKey (chars ++ [c])) := by
  have whole : 16 * (16 * (16 * (16 * 0 + c / 4096) + c / 256 % 16) + c / 16 % 16) + c % 16 = c := by omega
  have opened : read (inString stack isKey chars) [92, 117] =
      some ⟨stack, .string isKey chars (.hex 0 0)⟩ := rfl
  have split : hexEscape c = [92, 117] ++ [hexChar (c / 4096), hexChar (c / 256 % 16),
      hexChar (c / 16 % 16), hexChar (c % 16)] := rfl
  rw [split, read_append, opened, Option.bind_some]
  rw [read_cons, step_hex _ _ _ _ _ (by omega), Option.bind_some, if_neg (by decide)]
  rw [read_cons, step_hex _ _ _ _ _ (by omega), Option.bind_some, if_neg (by decide)]
  rw [read_cons, step_hex _ _ _ _ _ (by omega), Option.bind_some, if_neg (by decide)]
  rw [read_cons, step_hex _ _ _ _ _ (by omega), Option.bind_some, if_pos rfl, whole]
  rfl

theorem read_itself {c : Nat} (plain : Plain c) :
    read (inString stack isKey chars) [c] = some (inString stack isKey (chars ++ [c])) := by
  apply read_plain
  intro d member
  exact List.mem_singleton.1 member ▸ plain

theorem read_quoteUnit (c : Nat) :
    read (inString stack isKey chars) (quoteUnit c) = some (inString stack isKey (chars ++ [c])) := by
  unfold quoteUnit
  split_ifs with quote slash back feed line carriage tab escaped
  · subst quote; rfl
  · subst slash; rfl
  · subst back; rfl
  · subst feed; rfl
  · subst line; rfl
  · subst carriage; rfl
  · subst tab; rfl
  · apply read_hexEscape
    simp only [isHigh, isLow, Bool.and_eq_true, decide_eq_true_eq] at escaped
    omega
  · apply read_itself
    exact ⟨by omega, quote, slash⟩

theorem read_quoteUnits (text : Text) :
    read (inString stack isKey chars) (quoteUnits text) = some (inString stack isKey (chars ++ text)) := by
  induction text using quoteUnits.induct generalizing chars with
  | case1 => simp [quoteUnits]
  | case2 c => exact read_quoteUnit stack isKey chars c
  | case3 c d rest pair ih =>
    have high : Plain c := by
      have large := pair.1
      simp only [isHigh, Bool.and_eq_true, decide_eq_true_eq] at large
      exact ⟨by omega, by omega, by omega⟩
    have low : Plain d := by
      have large := pair.2
      simp only [isLow, Bool.and_eq_true, decide_eq_true_eq] at large
      exact ⟨by omega, by omega, by omega⟩
    have split : c :: d :: quoteUnits rest = [c] ++ ([d] ++ quoteUnits rest) := rfl
    rw [quoteUnits, if_pos pair, split, read_append, read_itself _ _ _ high, Option.bind_some, read_append,
      read_itself _ _ _ low, Option.bind_some, ih]
    simp
  | case4 c d rest apart ih =>
    rw [quoteUnits, if_neg apart, read_append, read_quoteUnit, Option.bind_some, ih]
    simp

theorem read_quote {s : State} (opened : step s 34 = some (inString stack isKey [])) (text : Text) :
    read s (quote text) = endString stack isKey text := by
  have closed : read (inString stack isKey text) [34] = endString stack isKey text := by
    rw [read_cons]
    exact Option.bind_fun_some _
  rw [quote, read_append, read_append, read_cons, opened, Option.bind_some, read_nil, Option.bind_some,
    read_quoteUnits, Option.bind_some, List.nil_append, closed]

theorem read_word (w : Word) {s : State} (awaits : s.mode.awaits = true) :
    read s w.text = complete w.value s.stack := by
  obtain ⟨stack, mode⟩ := s
  cases mode <;> cases awaits <;> cases w <;> exact Option.bind_fun_some _

theorem step_quote {s : State} (awaits : s.mode.awaits = true) :
    step s 34 = some (inString s.stack false []) := by
  obtain ⟨stack, mode⟩ := s
  cases mode <;> cases awaits <;> rfl

theorem read_after (c : Nat) (named : c = 93 ∨ c = 125) : read ⟨stack, .after⟩ [c] = close stack c := by
  rw [read_cons]
  have stepped : step ⟨stack, .after⟩ c = close stack c := by
    obtain rfl | rfl := named <;> rfl
  rw [stepped]
  exact Option.bind_fun_some _

theorem read_key (done : List (Text × Value)) (key : Text) {s : State}
    (opened : step s 34 = some (inString (.object done :: stack) true [])) :
    read s (quote key ++ [58]) = some ⟨.entry done key :: stack, .value⟩ := by
  rw [read_append, read_quote _ _ opened]
  rfl

mutual

theorem read_text : ∀ (d : Document) (s : State), s.mode.awaits = true →
    read s d.text = complete d.value s.stack
  | .word w, s, awaits => by
      rw [Document.text, Document.value]
      exact read_word w awaits
  | .str text, s, awaits => by
      rw [Document.text, Document.value, read_quote _ _ (step_quote awaits)]
      rfl
  | .arr items, s, awaits => by
      have opened : read s [91] = some ⟨.array [] :: s.stack, .first⟩ := by
        obtain ⟨stack, mode⟩ := s
        cases mode <;> cases awaits <;> rfl
      rw [Document.text, Document.value, read_append, read_append, opened, Option.bind_some]
      exact read_items items s.stack
  | .obj members, s, awaits => by
      have opened : read s [123] = some ⟨.object [] :: s.stack, .firstKey⟩ := by
        obtain ⟨stack, mode⟩ := s
        cases mode <;> cases awaits <;> rfl
      rw [Document.text, Document.value, read_append, read_append, opened, Option.bind_some]
      exact read_members members s.stack

theorem read_items : ∀ (items : List Document) (stack : List Frame),
    ((read ⟨.array [] :: stack, .first⟩ (textItems items)).bind fun s => read s [93]) =
      complete (.arr (valueItems items)) stack
  | [], stack => Option.bind_fun_some _
  | item :: rest, stack => by
      rw [textItems, valueItems, read_append, read_text item _ rfl]
      exact read_more rest [item.value] stack

theorem read_more : ∀ (items : List Document) (done : List Value) (stack : List Frame),
    ((read ⟨.array done :: stack, .after⟩ (textMore items)).bind fun s => read s [93]) =
      complete (.arr (done ++ valueItems items)) stack
  | [], done, stack => by
      rw [textMore, valueItems, read_nil, Option.bind_some, List.append_nil]
      exact read_after _ 93 (.inl rfl)
  | item :: rest, done, stack => by
      have separated : read ⟨.array done :: stack, .after⟩ [44] = some ⟨.array done :: stack, .value⟩ := rfl
      have later := read_more rest (done ++ [item.value]) stack
      rw [List.append_assoc, List.singleton_append] at later
      rw [textMore, valueItems, read_append, read_append, separated, Option.bind_some, read_text item _ rfl]
      exact later

theorem read_members : ∀ (members : List (Text × Document)) (stack : List Frame),
    ((read ⟨.object [] :: stack, .firstKey⟩ (textMembers members)).bind fun s => read s [125]) =
      complete (.obj (valueMembers members)) stack
  | [], stack => Option.bind_fun_some _
  | (key, member) :: rest, stack => by
      rw [textMembers, valueMembers, read_append, read_append, read_key stack [] key rfl, Option.bind_some,
        read_text member _ rfl]
      exact read_further rest [(key, member.value)] stack

theorem read_further : ∀ (members : List (Text × Document)) (done : List (Text × Value))
    (stack : List Frame),
    ((read ⟨.object done :: stack, .after⟩ (textFurther members)).bind fun s => read s [125]) =
      complete (.obj (done ++ valueMembers members)) stack
  | [], done, stack => by
      rw [textFurther, valueMembers, read_nil, Option.bind_some, List.append_nil]
      exact read_after _ 125 (.inr rfl)
  | (key, member) :: rest, done, stack => by
      have separated : read ⟨.object done :: stack, .after⟩ [44] = some ⟨.object done :: stack, .key⟩ := rfl
      have later := read_further rest (done ++ [(key, member.value)]) stack
      rw [List.append_assoc, List.singleton_append] at later
      have split : textFurther ((key, member) :: rest) =
          [44] ++ ((quote key ++ [58]) ++ (member.text ++ textFurther rest)) := by
        simp only [textFurther, List.append_assoc]
      rw [split, valueMembers, read_append, separated, Option.bind_some, read_append,
        read_key stack done key rfl, Option.bind_some, read_append, read_text member _ rfl]
      exact later

end

theorem parse_text (d : Document) : parse d.text = some d.value := by
  unfold parse
  rw [read_text d start rfl]
  rfl

end CppCoder.Support.JsonText
