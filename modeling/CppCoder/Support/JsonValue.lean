import CppCoder.Support.Utf8

/-! JSON values and the accessors of a library that throws: a lookup with a default throws on a value
that is no object and on a member of another type, and serialising throws on a string that is not
UTF-8. -/

namespace CppCoder.Support.JsonValue
open Utf8

inductive Json where
  | null
  | bool (b : Bool)
  | unsigned (n : UInt64)
  | integer (i : Int)
  | float (x : Rat)
  | str (s : Bytes)
  | arr (items : List Json)
  | obj (fields : List (Bytes × Json))

inductive JsonError where
  | parse
  | notObject
  | wrongType
  deriving DecidableEq

mutual

/-- `dump` does not throw: all strings, keys included, are UTF-8. -/
def Json.dumpable : Json → Bool
  | .str s => decide (Valid s)
  | .arr items => dumpableItems items
  | .obj fields => dumpableFields fields
  | _ => true

def dumpableItems : List Json → Bool
  | [] => true
  | item :: rest => item.dumpable && dumpableItems rest

def dumpableFields : List (Bytes × Json) → Bool
  | [] => true
  | (key, member) :: rest => decide (Valid key) && member.dumpable && dumpableFields rest

end

/-- The parser: the JSON text a string holds, if any. Strings of a parsed value are UTF-8. -/
structure Parser where
  parse : Bytes → Option Json
  dumpable : ∀ text parsed, parse text = some parsed → parsed.dumpable = true

/-- The member that `value` looks up. -/
def Json.member (key : String) : Json → Except JsonError (Option Json)
  | .obj fields => .ok (fields.lookup (ascii key))
  | _ => .error .notObject

def Json.valueStr (parsed : Json) (key : String) (default : Bytes) : Except JsonError Bytes :=
  match parsed.member key with
  | .error e => .error e
  | .ok none => .ok default
  | .ok (some (.str s)) => .ok s
  | .ok (some _) => .error .wrongType

def Json.valueBool (parsed : Json) (key : String) (default : Bool) : Except JsonError Bool :=
  match parsed.member key with
  | .error e => .error e
  | .ok none => .ok default
  | .ok (some (.bool b)) => .ok b
  | .ok (some _) => .error .wrongType

def Json.valueJson (parsed : Json) (key : String) (default : Json) : Except JsonError Json :=
  match parsed.member key with
  | .error e => .error e
  | .ok none => .ok default
  | .ok (some member) => .ok member

/-- What a range loop over a value runs through: a value that is no container is met once. -/
def Json.items : Json → List Json
  | .arr items => items
  | .obj fields => fields.map Prod.snd
  | .null => []
  | primitive => [primitive]

theorem dumpableItems_iff (items : List Json) :
    dumpableItems items = true ↔ ∀ item ∈ items, item.dumpable = true := by
  induction items with
  | nil => simp [dumpableItems]
  | cons item rest ih => simp [dumpableItems, ih]

theorem dumpableFields_iff (fields : List (Bytes × Json)) :
    dumpableFields fields = true ↔ ∀ field ∈ fields, Valid field.1 ∧ field.2.dumpable = true := by
  induction fields with
  | nil => simp [dumpableFields]
  | cons field rest ih =>
    obtain ⟨key, member⟩ := field
    simp [dumpableFields, ih]

@[simp] theorem dumpable_str (s : Bytes) : (Json.str s).dumpable = true ↔ Valid s := by
  simp [Json.dumpable]

@[simp] theorem dumpable_arr (items : List Json) :
    (Json.arr items).dumpable = true ↔ ∀ item ∈ items, item.dumpable = true := by
  rw [Json.dumpable, dumpableItems_iff]

@[simp] theorem dumpable_obj (fields : List (Bytes × Json)) :
    (Json.obj fields).dumpable = true ↔ ∀ field ∈ fields, Valid field.1 ∧ field.2.dumpable = true := by
  rw [Json.dumpable, dumpableFields_iff]

@[simp] theorem dumpable_bool (b : Bool) : (Json.bool b).dumpable = true := by simp [Json.dumpable]

@[simp] theorem dumpable_unsigned (n : UInt64) : (Json.unsigned n).dumpable = true := by
  simp [Json.dumpable]

@[simp] theorem dumpable_integer (i : Int) : (Json.integer i).dumpable = true := by simp [Json.dumpable]

@[simp] theorem dumpable_float (x : Rat) : (Json.float x).dumpable = true := by simp [Json.dumpable]

theorem dumpable_member {parsed found : Json} (clean : parsed.dumpable = true) {key : String}
    (ok : parsed.member key = .ok (some found)) : found.dumpable = true := by
  cases parsed with
  | obj fields =>
    simp only [Json.member, Except.ok.injEq] at ok
    obtain ⟨before, after, split, -⟩ := List.lookup_eq_some_iff.1 ok
    exact ((dumpable_obj fields).1 clean (ascii key, found) (by simp [split])).2
  | _ => cases ok

theorem valid_valueStr {parsed : Json} (clean : parsed.dumpable = true) {key : String} {default s : Bytes}
    (fallback : Valid default) (ok : parsed.valueStr key default = .ok s) : Valid s := by
  unfold Json.valueStr at ok
  cases found : parsed.member key with
  | error e => simp [found] at ok
  | ok member =>
    rw [found] at ok
    cases member with
    | none => exact Except.ok.inj ok ▸ fallback
    | some member =>
      cases member with
      | str text =>
        cases ok
        exact (dumpable_str _).1 (dumpable_member clean found)
      | _ => cases ok

theorem dumpable_valueJson {parsed default found : Json} (clean : parsed.dumpable = true) {key : String}
    (fallback : default.dumpable = true) (ok : parsed.valueJson key default = .ok found) :
    found.dumpable = true := by
  unfold Json.valueJson at ok
  cases looked : parsed.member key with
  | error e => simp [looked] at ok
  | ok member =>
    rw [looked] at ok
    cases member with
    | none => exact Except.ok.inj ok ▸ fallback
    | some member => exact Except.ok.inj ok ▸ dumpable_member clean looked

theorem dumpable_items {parsed : Json} (clean : parsed.dumpable = true) :
    ∀ item ∈ parsed.items, item.dumpable = true := by
  intro item member
  cases parsed with
  | arr items => exact (dumpable_arr items).1 clean item member
  | obj fields =>
    obtain ⟨field, there, rfl⟩ := List.mem_map.1 member
    exact ((dumpable_obj fields).1 clean field there).2
  | null => cases member
  | _ => exact List.mem_singleton.1 member ▸ clean

def Parser.table (entries : List (Bytes × Json)) (clean : ∀ e ∈ entries, e.2.dumpable = true) : Parser where
  parse text := entries.lookup text
  dumpable text parsed found := by
    obtain ⟨before, after, split, -⟩ := List.lookup_eq_some_iff.1 found
    exact clean (text, parsed) (by simp [split])

def quoted (text : Bytes) : Bytes :=
  [34] ++ text.flatMap (fun b => if b = 34 ∨ b = 92 then [92, b] else if b = 10 then [92, 110] else [b]) ++ [34]

def sortsBefore : Bytes → Bytes → Bool
  | [], _ => true
  | _, [] => false
  | a :: rest, b :: others => a < b || (a == b && sortsBefore rest others)

def insertField (field : Bytes × Bytes) : List (Bytes × Bytes) → List (Bytes × Bytes)
  | [] => [field]
  | other :: rest => if sortsBefore field.1 other.1 then field :: other :: rest else other :: insertField field rest

def commaSeparated : List Bytes → Bytes
  | [] => []
  | [item] => item
  | item :: rest => item ++ [44] ++ commaSeparated rest

mutual

/-- What `dump` writes for values without floats and other control characters: members stand in the order of their
names. -/
def compact : Json → Bytes
  | .null => ascii "null"
  | .bool b => if b then ascii "true" else ascii "false"
  | .unsigned n => decimal n.toNat
  | .integer i => if i < 0 then [45] ++ decimal i.natAbs else decimal i.natAbs
  | .float _ => []
  | .str s => quoted s
  | .arr items => [91] ++ commaSeparated (compactItems items) ++ [93]
  | .obj fields =>
      [123] ++ commaSeparated ((compactFields fields).map fun field => quoted field.1 ++ [58] ++ field.2) ++ [125]

def compactItems : List Json → List Bytes
  | [] => []
  | item :: rest => compact item :: compactItems rest

def compactFields : List (Bytes × Json) → List (Bytes × Bytes)
  | [] => []
  | (key, member) :: rest => insertField (key, compact member) (compactFields rest)

end

end CppCoder.Support.JsonValue
