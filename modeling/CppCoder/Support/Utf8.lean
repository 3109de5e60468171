import Mathlib.Data.List.Infix
import Mathlib.Data.List.Basic

/-! Byte strings and the UTF-8 table. A C++ string is a list of bytes of any kind; whether it is
well formed is decided byte by byte, carrying the ranges that the rest of a character must meet. -/

namespace CppCoder.Support.Utf8

abbrev Bytes := List UInt8

def ascii (text : String) : Bytes := text.toUTF8.data.toList.map fun b => UInt8.ofNat (b.toNat % 128)

/-- `std::to_string` of a non-negative number. -/
def decimal (n : Nat) : Bytes := ascii (Nat.repr n)

abbrev Range := UInt8 × UInt8

def tail : Range := (0x80, 0xBF)

/-- The ranges that the bytes after a leading byte must meet, if it can lead a character. -/
def lead (b : UInt8) : Option (List Range) :=
  if b < 0x80 then some []
  else if 0xC2 ≤ b ∧ b ≤ 0xDF then some [tail]
  else if b = 0xE0 then some [(0xA0, 0xBF), tail]
  else if b = 0xED then some [(0x80, 0x9F), tail]
  else if 0xE1 ≤ b ∧ b ≤ 0xEF then some [tail, tail]
  else if b = 0xF0 then some [(0x90, 0xBF), tail, tail]
  else if 0xF1 ≤ b ∧ b ≤ 0xF3 then some [tail, tail, tail]
  else if b = 0xF4 then some [(0x80, 0x8F), tail, tail]
  else none

/-- Reads a byte string; the result is what the last character still lacks. -/
def scan : List Range → Bytes → Option (List Range)
  | pending, [] => some pending
  | [], b :: rest =>
      match lead b with
      | some pending => scan pending rest
      | none => none
  | (low, high) :: pending, b :: rest => if low ≤ b ∧ b ≤ high then scan pending rest else none

/-- Well-formed UTF-8: every byte is read and no character is left open. -/
def Valid (text : Bytes) : Prop := scan [] text = some []

instance (text : Bytes) : Decidable (Valid text) := inferInstanceAs (Decidable (_ = _))

theorem scan_append (pending : List Range) (first second : Bytes) :
    scan pending (first ++ second) = (scan pending first).bind fun left => scan left second := by
  induction first generalizing pending with
  | nil => simp [scan]
  | cons b rest ih =>
    cases pending with
    | nil =>
      simp only [List.cons_append, scan]
      cases lead b with
      | none => rfl
      | some next => exact ih next
    | cons range pending =>
      simp only [List.cons_append, scan]
      split_ifs with inside
      · exact ih pending
      · rfl

@[simp] theorem valid_nil : Valid [] := rfl

theorem valid_append {first : Bytes} (valid : Valid first) (second : Bytes) :
    Valid (first ++ second) ↔ Valid second := by
  unfold Valid at *
  rw [scan_append, valid, Option.bind_some]

theorem Valid.append {first second : Bytes} (one : Valid first) (two : Valid second) :
    Valid (first ++ second) := (valid_append one second).2 two

theorem lead_ascii {b : UInt8} (small : b < 0x80) : lead b = some [] := if_pos small

def Inner (range : Range) : Prop := 0x80 ≤ range.1 ∧ range.2 ≤ 0xBF

theorem lead_inner {b : UInt8} {pending : List Range} (found : lead b = some pending) :
    ∀ range ∈ pending, Inner range := by
  unfold lead at found
  unfold Inner
  split_ifs at found <;> cases found <;> simp [tail, UInt8.le_iff_toNat_le]

theorem lead_of_inner {b : UInt8} {range : Range} (inner : Inner range) (inside : range.1 ≤ b ∧ b ≤ range.2) :
    lead b = none := by
  have above := UInt8.le_iff_toNat_le.1 (UInt8.le_trans inner.1 inside.1)
  have below := UInt8.le_iff_toNat_le.1 (UInt8.le_trans inside.2 inner.2)
  change 128 ≤ b.toNat at above
  change b.toNat ≤ 191 at below
  unfold lead
  simp only [UInt8.le_iff_toNat_le, UInt8.lt_iff_toNat_lt, ← UInt8.toNat_inj, UInt8.reduceToNat]
  split_ifs <;> first | rfl | omega

theorem scan_inner {text : Bytes} {before after : List Range} (run : scan before text = some after)
    (inner : ∀ range ∈ before, Inner range) : ∀ range ∈ after, Inner range := by
  induction text generalizing before with
  | nil =>
    simp only [scan, Option.some.injEq] at run
    exact run ▸ inner
  | cons b rest ih =>
    cases before with
    | nil =>
      simp only [scan] at run
      cases found : lead b with
      | none => simp [found] at run
      | some pending =>
        rw [found] at run
        exact ih run (lead_inner found)
    | cons range pending =>
      simp only [scan] at run
      split_ifs at run with inside
      exact ih run fun other member => inner other (List.mem_cons_of_mem _ member)

theorem scan_open {range : Range} {pending : List Range} (inner : Inner range) {text : Bytes} (valid : Valid text)
    (some : text ≠ []) : scan (range :: pending) text = none := by
  obtain ⟨b, rest, rfl⟩ := List.exists_cons_of_ne_nil some
  refine if_neg fun inside => ?_
  simp [Valid, scan, lead_of_inner inner inside] at valid

theorem valid_between {text : Bytes} (valid : Valid text) (some : text ≠ []) (first second : Bytes) :
    Valid (first ++ text ++ second) ↔ Valid first ∧ Valid second := by
  constructor
  · intro whole
    unfold Valid at whole
    rw [scan_append, scan_append] at whole
    cases run : scan [] first with
    | none => simp [run] at whole
    | some pending =>
      rw [run, Option.bind_some] at whole
      cases pending with
      | nil =>
        rw [valid, Option.bind_some] at whole
        exact ⟨run, whole⟩
      | cons range pending =>
        have inner := scan_inner run (by simp) range List.mem_cons_self
        simp [scan_open inner valid some] at whole
  · rintro ⟨one, two⟩
    exact (one.append valid).append two

theorem valid_append_right {second : Bytes} (valid : Valid second) (first : Bytes) :
    Valid (first ++ second) ↔ Valid first := by
  by_cases none : second = []
  · rw [none, List.append_nil]
  · simpa using valid_between valid none first []

theorem valid_of_ascii {text : Bytes} (small : ∀ b ∈ text, b < 0x80) : Valid text := by
  unfold Valid
  induction text with
  | nil => rfl
  | cons b rest ih =>
    simp only [scan, lead_ascii (small b (by simp))]
    exact ih fun c member => small c (List.mem_cons_of_mem _ member)

theorem ascii_small (text : String) : ∀ b ∈ ascii text, b < 0x80 := by
  intro b member
  obtain ⟨c, -, rfl⟩ := List.mem_map.1 member
  have bound : c.toNat % 128 < 128 := Nat.mod_lt _ (by decide)
  rw [UInt8.lt_iff_toNat_lt, UInt8.toNat_ofNat']
  change c.toNat % 128 % 256 < 128
  omega

@[simp] theorem valid_ascii (text : String) : Valid (ascii text) := valid_of_ascii (ascii_small text)

@[simp] theorem valid_decimal (n : Nat) : Valid (decimal n) := valid_ascii _

theorem ascii_append (first second : String) : ascii (first ++ second) = ascii first ++ ascii second := by
  simp [ascii, String.toUTF8, String.toByteArray_append]

def readDecimal (text : Bytes) : Nat := text.foldl (fun n b => 10 * n + (b.toNat - 48)) 0

theorem ascii_digit {n : Nat} (small : n < 10) : ascii (String.singleton n.digitChar) = [UInt8.ofNat (48 + n)] := by
  revert n
  decide

theorem readDecimal_decimal (n : Nat) : readDecimal (decimal n) = n := by
  induction n using Nat.strongRecOn with
  | ind n ih =>
    unfold decimal
    have code : ∀ d < 10, (UInt8.ofNat (48 + d)).toNat - 48 = d := by decide
    by_cases small : n < 10
    · rw [Nat.repr_of_lt small, ascii_digit small]
      simpa [readDecimal] using code n small
    · have front := ih (n / 10) (by omega)
      have last := code (n % 10) (by omega)
      unfold decimal at front
      rw [Nat.repr_of_ge (by omega), ascii_append, ascii_digit (by omega)]
      unfold readDecimal at *
      rw [List.foldl_append, front, List.foldl_cons, List.foldl_nil, last]
      omega

theorem decimal_injective : Function.Injective decimal := by
  intro m n same
  rw [← readDecimal_decimal m, same, readDecimal_decimal]

/-- An ASCII text before or behind another changes nothing. -/
@[simp] theorem valid_ascii_append (text : String) (rest : Bytes) : Valid (ascii text ++ rest) ↔ Valid rest :=
  valid_append (valid_ascii text) rest

@[simp] theorem valid_append_ascii (first : Bytes) (text : String) : Valid (first ++ ascii text) ↔ Valid first :=
  valid_append_right (valid_ascii text) first

theorem valid_flatMap {α : Type} {items : List α} {f : α → Bytes} (each : ∀ item ∈ items, Valid (f item)) :
    Valid (items.flatMap f) := by
  induction items with
  | nil => exact valid_nil
  | cons item rest ih =>
    rw [List.flatMap_cons]
    exact (each item List.mem_cons_self).append (ih fun other member => each other (List.mem_cons_of_mem _ member))

end CppCoder.Support.Utf8
