import CppCoder.Support.JsonValue

/-! Values that differ at most in the order of their members and in how their numbers are held. -/

namespace CppCoder.Support.JsonValue
open Utf8

def Json.number : Json → Option Rat
  | .unsigned n => some n.toNat
  | .integer i => some i
  | .float x => some x
  | _ => none

mutual

def Json.same : Json → Json → Bool
  | .null, .null => true
  | .bool a, .bool b => a == b
  | .str s, .str t => decide (s = t)
  | .arr items, .arr others => sameItems items others
  | .obj fields, .obj others =>
      sameFields fields others && others.all fun field => (fields.lookup field.1).isSome
  | a, b => a.number.isSome && decide (a.number = b.number)

def sameItems : List Json → List Json → Bool
  | [], [] => true
  | item :: rest, other :: others => item.same other && sameItems rest others
  | _, _ => false

def sameFields : List (Bytes × Json) → List (Bytes × Json) → Bool
  | [], _ => true
  | (key, member) :: rest, others =>
      (match others.lookup key with
        | some other => member.same other
        | none => false) && sameFields rest others

end

theorem sameItems_iff (items others : List Json) :
    sameItems items others = true ↔ List.Forall₂ (fun a b => a.same b = true) items others := by
  induction items generalizing others with
  | nil =>
    cases others with
    | nil => simp [sameItems]
    | cons other others => exact iff_of_false (by simp [sameItems]) nofun
  | cons item rest ih =>
    cases others with
    | nil => exact iff_of_false (by simp [sameItems]) nofun
    | cons other others => simp [sameItems, ih]

theorem sameFields_lookup {fields others : List (Bytes × Json)} (same : sameFields fields others = true)
    {key : Bytes} {a : Json} (found : fields.lookup key = some a) :
    ∃ b, others.lookup key = some b ∧ a.same b = true := by
  induction fields with
  | nil => cases found
  | cons field rest ih =>
    obtain ⟨name, member⟩ := field
    unfold sameFields at same
    rw [Bool.and_eq_true] at same
    rw [List.lookup_cons] at found
    split at found
    · rename_i named
      cases found
      obtain rfl : key = name := by simpa using named
      have first := same.1
      split at first
      · rename_i b there
        exact ⟨b, there, first⟩
      · cases first
    · exact ih same.2 found

theorem member_same {a b : Json} (same : a.same b = true) (key : String) :
    (a.member key = .error .notObject ∧ b.member key = .error .notObject) ∨
      ∃ found found', a.member key = .ok found ∧ b.member key = .ok found' ∧
        Option.Rel (fun x y => x.same y = true) found found' := by
  cases a with
  | obj fields =>
    cases b with
    | obj others =>
      right
      unfold Json.same at same
      rw [Bool.and_eq_true, List.all_eq_true] at same
      refine ⟨_, _, rfl, rfl, ?_⟩
      cases found : fields.lookup (ascii key) with
      | some member =>
        obtain ⟨other, there, alike⟩ := sameFields_lookup same.1 found
        rw [there]
        exact .some alike
      | none =>
        cases there : others.lookup (ascii key) with
        | none => exact .none
        | some other =>
          obtain ⟨before, after, split, -⟩ := List.lookup_eq_some_iff.1 there
          have listed := same.2 (ascii key, other) (by simp [split])
          rw [found] at listed
          cases listed
    | _ => simp [Json.same, Json.number] at same
  | _ =>
    left
    cases b <;> simp_all [Json.member, Json.same, Json.number]

section
variable {a b : Json} (same : a.same b = true)
include same

theorem valueStr_same (key : String) (default : Bytes) :
    a.valueStr key default = b.valueStr key default := by
  unfold Json.valueStr
  obtain ⟨one, two⟩ | ⟨found, found', one, two, related⟩ := member_same same key
  · rw [one, two]
  · rw [one, two]
    cases related with
    | none => rfl
    | @some x y alike => cases x <;> cases y <;> simp_all [Json.same, Json.number]

theorem valueBool_same (key : String) (default : Bool) :
    a.valueBool key default = b.valueBool key default := by
  unfold Json.valueBool
  obtain ⟨one, two⟩ | ⟨found, found', one, two, related⟩ := member_same same key
  · rw [one, two]
  · rw [one, two]
    cases related with
    | none => rfl
    | @some x y alike => cases x <;> cases y <;> simp_all [Json.same, Json.number]

theorem valueItems_same {key : String} {items : List Json} (found : b.valueJson key (.arr []) = .ok (.arr items)) :
    ∃ others, a.valueJson key (.arr []) = .ok (.arr others) ∧
      List.Forall₂ (fun x y => x.same y = true) others items := by
  unfold Json.valueJson at found ⊢
  obtain ⟨one, two⟩ | ⟨member, member', one, two, related⟩ := member_same same key
  · rw [two] at found
    cases found
  · rw [two] at found
    rw [one]
    cases related with
    | none =>
      cases found
      exact ⟨[], rfl, .nil⟩
    | @some x y alike =>
      cases found
      cases x with
      | arr others =>
        unfold Json.same at alike
        exact ⟨others, rfl, (sameItems_iff others items).1 alike⟩
      | _ => simp [Json.same, Json.number] at alike

end

end CppCoder.Support.JsonValue
