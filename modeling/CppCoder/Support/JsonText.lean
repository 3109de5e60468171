import Mathlib.Algebra.Group.Nat.Defs
import Mathlib.Data.List.DropRight
import Mathlib.Data.List.Induction
import Mathlib.Logic.Basic

/-! `JSON.parse`, one code unit at a time. What has been read is a stack of containers that are open and
what may come next. -/

namespace CppCoder.Support.JsonText

/-- A JavaScript string as its UTF-16 code units. -/
abbrev Text := List Nat

structure Number where
  negative : Bool
  digits : Nat
  exponent : Int
  deriving DecidableEq

inductive Value where
  | null
  | bool (b : Bool)
  | number (n : Number)
  | str (s : Text)
  | arr (items : List Value)
  | obj (members : List (Text × Value))

def Value.get (key : Text) : Value → Option Value
  | .obj members => members.reverse.lookup key
  | _ => none

def Number.isZero (n : Number) : Bool :=
  n.digits == 0 || (n.exponent < 0 && n.digits * 2 ^ 1075 ≤ 10 ^ n.exponent.natAbs)

def truthy : Option Value → Bool
  | none => false
  | some .null => false
  | some (.bool b) => b
  | some (.number n) => !n.isZero
  | some (.str s) => !s.isEmpty
  | some (.arr _) => true
  | some (.obj _) => true

mutual

/-- Whether the value has a string form: `toString` cannot be called on an object that has a member of that
name. -/
def Value.printable : Value → Bool
  | .obj members => !(members.map Prod.fst).contains [116, 111, 83, 116, 114, 105, 110, 103]
  | .arr items => printableItems items
  | _ => true

def printableItems : List Value → Bool
  | [] => true
  | item :: rest => item.printable && printableItems rest

end

def isBlank (c : Nat) : Bool :=
  (9 ≤ c && c ≤ 13) || (0x2000 ≤ c && c ≤ 0x200A) ||
    [0x20, 0xA0, 0x1680, 0x2028, 0x2029, 0x202F, 0x205F, 0x3000, 0xFEFF].contains c

def trim (text : Text) : Text := (text.dropWhile isBlank).rdropWhile isBlank

inductive Part where
  | sign
  | zero
  | whole
  | point
  | fraction
  | mark
  | exponentSign
  | exponent
  deriving DecidableEq

structure Numeral where
  part : Part
  negative : Bool := false
  digits : Nat := 0
  scale : Nat := 0
  exponentNegative : Bool := false
  exponent : Nat := 0
  deriving DecidableEq

def isDigit (c : Nat) : Bool := 48 ≤ c && c ≤ 57

def isMark (c : Nat) : Bool := c == 101 || c == 69

def Numeral.start (c : Nat) : Option Numeral :=
  if c = 45 then some { part := .sign, negative := true }
  else if c = 48 then some { part := .zero }
  else if isDigit c then some { part := .whole, digits := c - 48 }
  else none

def Numeral.step (n : Numeral) (c : Nat) : Option Numeral :=
  match n.part with
  | .sign =>
      if c = 48 then some { n with part := .zero }
      else if isDigit c then some { n with part := .whole, digits := c - 48 }
      else none
  | .zero => if c = 46 then some { n with part := .point } else if isMark c then some
    { n with part := .mark } else none
  | .whole =>
      if isDigit c then some { n with digits := 10 * n.digits + (c - 48) }
      else if c = 46 then some { n with part := .point }
      else if isMark c then some { n with part := .mark }
      else none
  | .point =>
      if isDigit c then
        some { n with part := .fraction, digits := 10 * n.digits + (c - 48), scale := n.scale + 1 }
      else none
  | .fraction =>
      if isDigit c then some { n with digits := 10 * n.digits + (c - 48), scale := n.scale + 1 }
      else if isMark c then some { n with part := .mark }
      else none
  | .mark =>
      if c = 43 then some { n with part := .exponentSign }
      else if c = 45 then some { n with part := .exponentSign, exponentNegative := true }
      else if isDigit c then some { n with part := .exponent, exponent := c - 48 }
      else none
  | .exponentSign => if isDigit c then some { n with part := .exponent, exponent := c - 48 } else none
  | .exponent => if isDigit c then some { n with exponent := 10 * n.exponent + (c - 48) } else none

def Numeral.value (n : Numeral) : Option Number :=
  if n.part ∈ [.zero, .whole, .fraction, .exponent] then
    let exponent : Int := if n.exponentNegative then -n.exponent else n.exponent
    some ⟨n.negative, n.digits, exponent - n.scale⟩
  else none

inductive Escape where
  | plain
  | slash
  | hex (count value : Nat)
  deriving DecidableEq

def unescape (c : Nat) : Option Nat :=
  if c = 34 ∨ c = 92 ∨ c = 47 then some c
  else if c = 98 then some 8
  else if c = 102 then some 12
  else if c = 110 then some 10
  else if c = 114 then some 13
  else if c = 116 then some 9
  else none

def hexDigit (c : Nat) : Option Nat :=
  if isDigit c then some (c - 48)
  else if 97 ≤ c ∧ c ≤ 102 then some (c - 87)
  else if 65 ≤ c ∧ c ≤ 70 then some (c - 55)
  else none

/-! ### Documents -/

inductive Word where
  | true
  | false
  | null
  deriving DecidableEq

def Word.text : Word → Text
  | .true => [116, 114, 117, 101]
  | .false => [102, 97, 108, 115, 101]
  | .null => [110, 117, 108, 108]

def Word.value : Word → Value
  | .true => .bool Bool.true
  | .false => .bool Bool.false
  | .null => .null

/-- A container that is open: an array, an object, or an object in which a value has a name. -/
inductive Frame where
  | array (done : List Value)
  | object (done : List (Text × Value))
  | entry (done : List (Text × Value)) (key : Text)

inductive Mode where
  | value
  | first
  | key
  | firstKey
  | colon (key : Text)
  | after
  | string (isKey : Bool) (chars : Text) (escape : Escape)
  | numeral (n : Numeral)
  | word (w : Word) (count : Nat)
  | finished (v : Value)

structure State where
  stack : List Frame
  mode : Mode

def start : State := ⟨[], .value⟩

def isSpace (c : Nat) : Bool := c == 32 || c == 9 || c == 10 || c == 13

def complete (v : Value) : List Frame → Option State
  | [] => some ⟨[], .finished v⟩
  | .array done :: rest => some ⟨.array (done ++ [v]) :: rest, .after⟩
  | .entry done key :: rest => some ⟨.object (done ++ [(key, v)]) :: rest, .after⟩
  | .object _ :: _ => none

def beginValue (stack : List Frame) (c : Nat) : Option State :=
  if c = 34 then some ⟨stack, .string false [] .plain⟩
  else if c = 123 then some ⟨.object [] :: stack, .firstKey⟩
  else if c = 91 then some ⟨.array [] :: stack, .first⟩
  else if c = 116 then some ⟨stack, .word .true 1⟩
  else if c = 102 then some ⟨stack, .word .false 1⟩
  else if c = 110 then some ⟨stack, .word .null 1⟩
  else (Numeral.start c).map fun n => ⟨stack, .numeral n⟩

/-- `]` or `}`. -/
def close : List Frame → Nat → Option State
  | .array done :: rest, 93 => complete (.arr done) rest
  | .object done :: rest, 125 => complete (.obj done) rest
  | _, _ => none

def comma : List Frame → Option State
  | .array done :: rest => some ⟨.array done :: rest, .value⟩
  | .object done :: rest => some ⟨.object done :: rest, .key⟩
  | _ => none

def afterValue (stack : List Frame) (c : Nat) : Option State :=
  if isSpace c then some ⟨stack, .after⟩ else if c = 44 then comma stack else close stack c

def endString (stack : List Frame) (isKey : Bool) (chars : Text) : Option State :=
  if isKey then some ⟨stack, .colon chars⟩ else complete (.str chars) stack

def stepString (stack : List Frame) (isKey : Bool) (chars : Text) (c : Nat) : Escape → Option State
  | .plain =>
      if c = 34 then endString stack isKey chars
      else if c = 92 then some ⟨stack, .string isKey chars .slash⟩
      else if c < 32 then none
      else some ⟨stack, .string isKey (chars ++ [c]) .plain⟩
  | .slash =>
      if c = 117 then some ⟨stack, .string isKey chars (.hex 0 0)⟩
      else (unescape c).map fun u => ⟨stack, .string isKey (chars ++ [u]) .plain⟩
  | .hex count value =>
      (hexDigit c).map fun d =>
        if count = 3 then ⟨stack, .string isKey (chars ++ [16 * value + d]) .plain⟩
        else ⟨stack, .string isKey chars (.hex (count + 1) (16 * value + d))⟩

def delimit (c : Nat) (s : State) : Option State :=
  match s.mode with
  | .finished _ => if isSpace c then some s else none
  | .after => afterValue s.stack c
  | _ => none

def step (s : State) (c : Nat) : Option State :=
  match s.mode with
  | .value => if isSpace c then some s else beginValue s.stack c
  | .first => if isSpace c then some s else if c = 93 then close s.stack c else beginValue s.stack c
  | .key => if isSpace c then some s else if c = 34 then some ⟨s.stack, .string true [] .plain⟩ else none
  | .firstKey =>
      if isSpace c then some s
      else if c = 34 then some ⟨s.stack, .string true [] .plain⟩
      else close s.stack c
  | .colon key =>
      if isSpace c then some s
      else if c = 58 then
        match s.stack with
        | .object done :: rest => some ⟨.entry done key :: rest, .value⟩
        | _ => none
      else none
  | .after => afterValue s.stack c
  | .string isKey chars escape => stepString s.stack isKey chars c escape
  | .numeral n =>
      match n.step c with
      | some more => some ⟨s.stack, .numeral more⟩
      | none => (n.value.bind fun v => complete (.number v) s.stack).bind (delimit c)
  | .word w count =>
      if w.text[count]? = some c then
        if count + 1 = w.text.length then complete w.value s.stack else some ⟨s.stack, .word w (count + 1)⟩
      else none
  | .finished _ => if isSpace c then some s else none

def finish (s : State) : Option Value :=
  match s.mode with
  | .finished v => some v
  | .numeral n => if s.stack.isEmpty then n.value.map .number else none
  | _ => none

def read (s : State) (text : Text) : Option State := text.foldlM step s

/-- `JSON.parse`, which throws where there is no value. -/
def parse (text : Text) : Option Value := (read start text).bind finish

theorem read_append (s : State) (first second : Text) :
    read s (first ++ second) = (read s first).bind fun s' => read s' second := List.foldlM_append

theorem read_cons (s : State) (c : Nat) (rest : Text) : read s (c :: rest) =
    (step s c).bind fun s' => read s' rest :=
  List.foldlM_cons

@[simp] theorem read_nil (s : State) : read s [] = some s := rfl

/-! ### What comes before a value -/

def Mode.awaits : Mode → Bool
  | .value => true
  | .first => true
  | _ => false

def Opened (s : State) : Prop := s.mode.awaits = true → s.stack ≠ []

theorem opened_of_mode {s : State} (mode : s.mode.awaits = false) : Opened s := by
  intro awaits
  rw [mode] at awaits
  cases awaits

theorem opened_of_stack {s : State} (some : s.stack ≠ []) : Opened s := fun _ => some

theorem complete_opened {v : Value} {stack : List Frame} {s : State}
    (done : complete v stack = some s) : Opened s := by
  unfold complete at done
  split at done <;> cases done <;> exact opened_of_mode rfl

theorem close_opened {stack : List Frame} {c : Nat} {s : State} (closed : close stack c = some s) :
    Opened s := by
  unfold close at closed
  split at closed
  · exact complete_opened closed
  · exact complete_opened closed
  · cases closed

theorem beginValue_opened {stack : List Frame} {c : Nat} {s : State} (begun : beginValue stack c = some s) :
    Opened s := by
  unfold beginValue at begun
  split_ifs at begun
  · cases begun
    exact opened_of_mode rfl
  · cases begun
    exact opened_of_mode rfl
  · cases begun
    exact opened_of_stack (by simp)
  · cases begun
    exact opened_of_mode rfl
  · cases begun
    exact opened_of_mode rfl
  · cases begun
    exact opened_of_mode rfl
  · obtain ⟨n, -, rfl⟩ := Option.map_eq_some_iff.1 begun
    exact opened_of_mode rfl

theorem afterValue_opened {stack : List Frame} {c : Nat} {s : State}
    (next : afterValue stack c = some s) : Opened s := by
  unfold afterValue comma at next
  split_ifs at next
  · cases next
    exact opened_of_mode rfl
  · split at next <;> cases next <;> exact opened_of_stack (by simp)
  · exact close_opened next

theorem endString_opened {stack : List Frame} {isKey : Bool} {chars : Text} {s : State}
    (ended : endString stack isKey chars = some s) : Opened s := by
  unfold endString at ended
  split_ifs at ended
  · cases ended
    exact opened_of_mode rfl
  · exact complete_opened ended

theorem stepString_opened {stack : List Frame} {isKey : Bool} {chars : Text} {c : Nat}
    {escape : Escape} {s : State}
    (next : stepString stack isKey chars c escape = some s) : Opened s := by
  cases escape with
  | plain =>
    simp only [stepString] at next
    split_ifs at next
    · exact endString_opened next
    · cases next
      exact opened_of_mode rfl
    · cases next
      exact opened_of_mode rfl
  | slash =>
    simp only [stepString] at next
    split_ifs at next
    · cases next
      exact opened_of_mode rfl
    · obtain ⟨u, -, rfl⟩ := Option.map_eq_some_iff.1 next
      exact opened_of_mode rfl
  | hex count value =>
    obtain ⟨d, -, rfl⟩ := Option.map_eq_some_iff.1 next
    split_ifs <;> exact opened_of_mode rfl

theorem delimit_opened {c : Nat} {s s' : State} (before : Opened s) (next : delimit c s = some s') :
    Opened s' := by
  unfold delimit at next
  split at next
  · split_ifs at next
    cases next
    exact before
  · exact afterValue_opened next
  · cases next

theorem step_opened {s s' : State} {c : Nat} (next : step s c = some s') :
    (s' = s ∧ isSpace c = true) ∨ Opened s' := by
  obtain ⟨stack, mode⟩ := s
  unfold step at next
  cases mode with
  | value =>
    dsimp only at next
    split_ifs at next with blank
    · cases next
      exact .inl ⟨rfl, blank⟩
    · exact .inr (beginValue_opened next)
  | first =>
    dsimp only at next
    split_ifs at next with blank
    · cases next
      exact .inl ⟨rfl, blank⟩
    · exact .inr (close_opened next)
    · exact .inr (beginValue_opened next)
  | key =>
    dsimp only at next
    split_ifs at next with blank
    · cases next
      exact .inl ⟨rfl, blank⟩
    · cases next
      exact .inr (opened_of_mode rfl)
  | firstKey =>
    dsimp only at next
    split_ifs at next with blank
    · cases next
      exact .inl ⟨rfl, blank⟩
    · cases next
      exact .inr (opened_of_mode rfl)
    · exact .inr (close_opened next)
  | colon key =>
    dsimp only at next
    split_ifs at next with blank
    · cases next
      exact .inl ⟨rfl, blank⟩
    · right
      split at next <;> cases next
      exact opened_of_stack (by simp)
  | after => exact .inr (afterValue_opened next)
  | string isKey chars escape => exact .inr (stepString_opened next)
  | numeral n =>
    right
    dsimp only at next
    split at next
    · cases next
      exact opened_of_mode rfl
    · obtain ⟨s, ended, delimited⟩ := Option.bind_eq_some_iff.1 next
      obtain ⟨v, -, completed⟩ := Option.bind_eq_some_iff.1 ended
      exact delimit_opened (complete_opened completed) delimited
  | word w count =>
    right
    dsimp only at next
    split_ifs at next
    · exact complete_opened next
    · cases next
      exact opened_of_mode rfl
  | finished v =>
    dsimp only at next
    split_ifs at next with blank
    cases next
    exact .inl ⟨rfl, blank⟩

/-- Until anything but white space was read, everything is still to come; from then on, a value may come
only in a container. -/
theorem read_opened (text : Text) : ∀ s, read start text = some s →
    (s = start ∧ ∀ c ∈ text, isSpace c = true) ∨ Opened s := by
  induction text using List.reverseRecOn with
  | nil =>
    intro s found
    cases found
    exact .inl ⟨rfl, by simp⟩
  | append_singleton text c ih =>
    intro s found
    rw [read_append] at found
    obtain ⟨s1, before, after⟩ := Option.bind_eq_some_iff.1 found
    rw [read_cons] at after
    obtain ⟨s2, stepped, rest⟩ := Option.bind_eq_some_iff.1 after
    cases rest
    rcases step_opened stepped with ⟨same, blank⟩ | opened
    · rw [same]
      refine (ih s1 before).imp_left fun still => ⟨still.1, ?_⟩
      exact List.forall_mem_append.2 ⟨still.2, by simpa using blank⟩
    · exact .inr opened

/-! ### An object at the end -/

def Plain (c : Nat) : Prop := 32 ≤ c ∧ c ≠ 34 ∧ c ≠ 92

def memberText (key text : Text) : Text := [123, 34] ++ key ++ [34, 58, 34] ++ text ++ [34, 125]

theorem read_plain (stack : List Frame) (isKey : Bool) (text : Text) (plain : ∀ c ∈ text, Plain c)
    (chars : Text) :
    read ⟨stack, .string isKey chars .plain⟩ text = some ⟨stack, .string isKey (chars ++ text) .plain⟩ := by
  induction text generalizing chars with
  | nil => simp
  | cons c rest ih =>
    obtain ⟨large, quote, slash⟩ := plain c List.mem_cons_self
    have stepped : step ⟨stack, .string isKey chars .plain⟩ c =
        some ⟨stack, .string isKey (chars ++ [c]) .plain⟩ := by
      simp only [step, stepString]
      rw [if_neg quote, if_neg slash, if_neg (by omega)]
    rw [read_cons, stepped, Option.bind_some, ih fun d member => plain d (List.mem_cons_of_mem _ member)]
    simp

theorem read_member {s : State} (awaits : s.mode.awaits = true) {key text : Text}
    (plainKey : ∀ c ∈ key, Plain c) (plain : ∀ c ∈ text, Plain c) : read s (memberText key text) =
        complete (.obj [(key, .str text)]) s.stack := by
  have opened : read s [123, 34] = some ⟨.object [] :: s.stack, .string true [] .plain⟩ := by
    obtain ⟨stack, mode⟩ := s
    cases mode <;> cases awaits <;> rfl
  have named : ∀ stack, read ⟨.object [] :: stack, .string true key .plain⟩ [34, 58, 34] =
      some ⟨.entry [] key :: stack, .string false [] .plain⟩ := fun _ => rfl
  have closed : ∀ stack, read ⟨.entry [] key :: stack, .string false text .plain⟩ [34, 125] =
      complete (.obj [(key, .str text)]) stack := by
    intro stack
    have last : step ⟨.object [(key, .str text)] :: stack, .after⟩ 125 =
      complete (.obj [(key, .str text)]) stack := rfl
    have ended : step ⟨.entry [] key :: stack, .string false text .plain⟩ 34 =
        some ⟨.object [(key, .str text)] :: stack, .after⟩ := rfl
    rw [read_cons, ended, Option.bind_some, read_cons, last]
    exact Option.bind_fun_some _
  unfold memberText
  rw [read_append, read_append, read_append, read_append, opened, Option.bind_some,
    read_plain _ _ _ plainKey,
    Option.bind_some, List.nil_append, named, Option.bind_some, read_plain _ _ _ plain,
      Option.bind_some, List.nil_append,
    closed]

/-- A unit that neither ends nor separates values, and is no white space. -/
def Inert (c : Nat) : Prop := isSpace c = false ∧ c ≠ 58 ∧ c ≠ 44 ∧ c ≠ 93 ∧ c ≠ 125

theorem afterValue_inert (stack : List Frame) {c : Nat} (inert : Inert c) : afterValue stack c = none := by
  obtain ⟨space, -, comma, bracket, brace⟩ := inert
  unfold afterValue
  rw [if_neg (by simp [space]), if_neg comma]
  unfold close
  split
  · exact absurd rfl bracket
  · exact absurd rfl brace
  · rfl

theorem complete_inert {v : Value} {stack : List Frame} {s : State}
    (done : complete v stack = some s) {c : Nat}
    (inert : Inert c) : step s c = none ∧ delimit c s = none := by
  unfold complete at done
  split at done
  · cases done
    exact ⟨if_neg (by simp [inert.1]), if_neg (by simp [inert.1])⟩
  · cases done
    exact ⟨afterValue_inert _ inert, afterValue_inert _ inert⟩
  · cases done
    exact ⟨afterValue_inert _ inert, afterValue_inert _ inert⟩
  · cases done

theorem brace_inert : Inert 123 := ⟨rfl, by decide, by decide, by decide, by decide⟩

theorem numeral_brace (n : Numeral) : n.step 123 = none := by
  unfold Numeral.step
  cases n.part <;> rfl

theorem word_brace (w : Word) (count : Nat) : w.text[count]? ≠ some 123 := by
  intro found
  have member := List.mem_of_getElem? found
  revert member
  cases w <;> decide

theorem awaits_of_brace {s s' : State} {c : Nat} (inert : Inert c) (found : read s [123, 34, c] = some s') :
    s.mode.awaits = true := by
  obtain ⟨stack, mode⟩ := s
  rw [read_cons] at found
  obtain ⟨s1, first, found⟩ := Option.bind_eq_some_iff.1 found
  rw [read_cons] at found
  obtain ⟨s2, second, found⟩ := Option.bind_eq_some_iff.1 found
  rw [read_cons] at found
  obtain ⟨s3, third, -⟩ := Option.bind_eq_some_iff.1 found
  cases mode with
  | value => rfl
  | first => rfl
  | key => cases first
  | firstKey =>
    have none : close stack 123 = none := by
      unfold close
      split <;> simp_all
    cases none.symm.trans first
  | colon key => cases first
  | after => cases (afterValue_inert stack brace_inert).symm.trans first
  | string isKey chars escape =>
    cases escape with
    | plain =>
      cases first
      cases isKey with
      | true =>
        cases second
        obtain ⟨space, colon, -⟩ := inert
        have none : step ⟨stack, .colon (chars ++ [123])⟩ c = none := by
          simp only [step]
          rw [if_neg (by simp [space]), if_neg colon]
        cases none.symm.trans third
      | false =>
        have ended : complete (.str (chars ++ [123])) stack = some s2 := second
        cases (complete_inert ended inert).1.symm.trans third
    | slash => cases first
    | hex count value => cases first
  | numeral n =>
    unfold step at first
    dsimp only at first
    rw [numeral_brace] at first
    obtain ⟨s, ended, delimited⟩ := Option.bind_eq_some_iff.1 first
    obtain ⟨v, -, completed⟩ := Option.bind_eq_some_iff.1 ended
    cases (complete_inert completed brace_inert).2.symm.trans delimited
  | word w count =>
    have none : step ⟨stack, .word w count⟩ 123 = none := if_neg (word_brace w count)
    cases none.symm.trans first
  | finished v => cases first

theorem finish_nested {v : Value} {stack : List Frame} {s : State} (some : stack ≠ [])
    (done : complete v stack = Option.some s) :
    finish s = none := by
  unfold complete at done
  split at done
  · exact absurd rfl some
  · cases done
    rfl
  · cases done
    rfl
  · cases done

theorem parse_append_member (before : Text) {c : Nat} {name text : Text} (inert : Inert c)
    (plainKey : ∀ u ∈ c :: name, Plain u) (plain : ∀ u ∈ text, Plain u) :
    parse (before ++ memberText (c :: name) text) =
      if before.all isSpace then some (.obj [(c :: name, .str text)]) else none := by
  have blanks : ∀ spaces : Text, (∀ u ∈ spaces, isSpace u = true) → read start spaces = some start := by
    intro spaces blank
    induction spaces with
    | nil => rfl
    | cons u rest ih =>
      have stepped : step start u = some start := if_pos (blank u List.mem_cons_self)
      rw [read_cons, stepped, Option.bind_some, ih fun v member => blank v (List.mem_cons_of_mem _ member)]
  unfold parse
  rw [read_append]
  split_ifs with blank
  · rw [blanks before (List.all_eq_true.1 blank), Option.bind_some, read_member rfl plainKey plain]
    rfl
  · cases found : read start before with
    | none => rfl
    | some s =>
      rw [Option.bind_some]
      cases whole : read s (memberText (c :: name) text) with
      | none => rfl
      | some s' =>
        have split : memberText (c :: name) text = [123, 34, c] ++
            (name ++ [34, 58, 34] ++ text ++ [34, 125]) := by
          simp [memberText]
        have opening := whole
        rw [split, read_append] at opening
        obtain ⟨s1, opening, -⟩ := Option.bind_eq_some_iff.1 opening
        have awaits := awaits_of_brace inert opening
        rw [read_member awaits plainKey plain] at whole
        rcases read_opened before s found with ⟨-, all⟩ | opened
        · exact absurd (List.all_eq_true.2 all) blank
        · exact finish_nested (opened awaits) whole

theorem blank_of_space {c : Nat} (space : isSpace c = true) : isBlank c = true := by
  simp only [isSpace, Bool.or_eq_true, beq_iff_eq] at space
  rcases space with ((rfl | rfl) | rfl) | rfl <;> rfl

theorem trim_append (before mid : Text) {c d : Nat} (first : isBlank c = false) (last : isBlank d = false) :
    trim (before ++ (c :: mid ++ [d])) = before.dropWhile isBlank ++ (c :: mid ++ [d]) := by
  have front : (before ++ (c :: mid ++ [d])).dropWhile isBlank = before.dropWhile isBlank ++
      (c :: mid ++ [d]) := by
    rw [List.dropWhile_append]
    split_ifs with empty
    · rw [List.isEmpty_iff.1 empty, List.nil_append]
      exact List.dropWhile_cons_of_neg (by simp [first])
    · rfl
  unfold trim
  rw [front, ← List.append_assoc]
  apply List.rdropWhile_concat_neg
  simp [last]

theorem all_space_dropWhile (text : Text) : (text.dropWhile isBlank).all isSpace = text.all isBlank := by
  cases rest : text.dropWhile isBlank with
  | nil =>
    rw [List.dropWhile_eq_nil_iff] at rest
    exact (List.all_eq_true.2 rest).symm
  | cons d rest' =>
    have marked : isBlank d = false := by
      have head := List.head_dropWhile_not isBlank (l := text) (by simp [rest])
      simpa [rest] using head
    have unspaced : isSpace d = false := by
      by_contra space
      rw [blank_of_space (by simpa using space)] at marked
      cases marked
    have member : d ∈ text := (List.dropWhile_suffix isBlank).subset (by simp [rest])
    have some : ¬ text.all isBlank = true := fun all => by
      rw [List.all_eq_true.1 all d member] at marked
      cases marked
    rw [List.all_cons, unspaced, Bool.false_and]
    exact (Bool.eq_false_iff.2 some).symm

theorem parse_trim_append_member (before : Text) {c : Nat} {name text : Text} (inert : Inert c)
    (plainKey : ∀ u ∈ c :: name, Plain u) (plain : ∀ u ∈ text, Plain u) :
    parse (trim (before ++ memberText (c :: name) text)) =
      if before.all isBlank then some (.obj [(c :: name, .str text)]) else none := by
  have member : memberText (c :: name) text = 123 :: ([34] ++ (c :: name) ++ [34, 58, 34] ++ text ++
      [34]) ++ [125] := by
    simp [memberText]
  have trimmed : trim (before ++ memberText (c :: name) text) =
      before.dropWhile isBlank ++ memberText (c :: name) text := by
    rw [member]
    exact trim_append _ _ rfl rfl
  rw [trimmed, parse_append_member _ inert plainKey plain, all_space_dropWhile]

end CppCoder.Support.JsonText
