import Mathlib.Algebra.Group.Nat.Defs
import CppCoder.Support.Utf8
import CppCoder.Support.JsonText

/-! `TextDecoder` for UTF-8 in its streaming form: a replacement character stands for what is not well
formed, and a byte order mark at the beginning is left out. -/

namespace CppCoder.Support.TextDecoder
open Utf8 JsonText

/-- A character that is open: the ranges its other bytes must meet, and its bits so far. -/
structure Decoder where
  pending : List Range := []
  point : Nat := 0
  markSeen : Bool := false
  inner : ∀ range ∈ pending, Inner range := by simp

def Decoder.start : Decoder := {}

def replacement : Nat := 0xFFFD

def byteOrderMark : Nat := 0xFEFF

def units (point : Nat) : Text :=
  if point < 0x10000 then [point]
  else [0xD800 + (point - 0x10000) / 0x400, 0xDC00 + (point - 0x10000) % 0x400]

def shown (markSeen : Bool) (point : Nat) : Text := if markSeen = false ∧ point =
    byteOrderMark then [] else units point

def leadBits (b : UInt8) (following : Nat) : Nat := b.toNat % 2 ^ (6 - following)

def begin (markSeen : Bool) (b : UInt8) : Decoder × Text :=
  match found : lead b with
  | none => ({ markSeen := true }, shown markSeen replacement)
  | some [] => ({ markSeen := true }, shown markSeen b.toNat)
  | some (range :: pending) =>
      ({ pending := range :: pending, point := leadBits b (pending.length + 1), markSeen,
         inner := lead_inner found }, [])

def put (d : Decoder) (b : UInt8) : Decoder × Text :=
  match open_ : d.pending with
  | [] => begin d.markSeen b
  | range :: pending =>
      if range.1 ≤ b ∧ b ≤ range.2 then
        let point := d.point * 64 + b.toNat % 64
        if pending = [] then ({ markSeen := true }, shown d.markSeen point)
        else
          ({ pending, point, markSeen := d.markSeen,
             inner := fun other member => d.inner other (open_ ▸ List.mem_cons_of_mem _ member) }, [])
      else
        let (next, text) := begin true b
        (next, shown d.markSeen replacement ++ text)

/-- `decode` of a chunk that is not the last. -/
def decode (d : Decoder) : Bytes → Decoder × Text
  | [] => (d, [])
  | b :: rest =>
      let (next, text) := put d b
      let (last, more) := decode next rest
      (last, text ++ more)

/-- `decode` at the end. -/
def flush (d : Decoder) : Text := if d.pending = [] then [] else shown d.markSeen replacement

theorem decode_append (d : Decoder) (first second : Bytes) : decode d (first ++ second) =
    ((decode (decode d first).1 second).1, (decode d first).2 ++ (decode (decode d first).1 second).2) := by
  induction first generalizing d with
  | nil => rfl
  | cons b rest ih =>
    simp only [List.cons_append, decode]
    rw [ih]
    simp

def decodeAll (stream : Bytes) : Text := (decode .start stream).2 ++ flush (decode .start stream).1

theorem begin_ascii {b : UInt8} (small : b < 0x80) (markSeen : Bool) :
    begin markSeen b = ({ markSeen := true }, [b.toNat]) := by
  have alone := lead_ascii small
  have value : b.toNat < 128 := UInt8.lt_iff_toNat_lt.1 small
  unfold begin
  split
  · rename_i none
    cases none.symm.trans alone
  · have unmarked : ¬ (markSeen = false ∧ b.toNat = byteOrderMark) := by
      unfold byteOrderMark
      omega
    unfold shown
    rw [if_neg unmarked, units, if_pos (by omega)]
  · rename_i some
    cases some.symm.trans alone

theorem put_ascii {b : UInt8} (small : b < 0x80) (d : Decoder) :
    put d b = ({ markSeen := true }, flush d ++ [b.toNat]) := by
  unfold put
  split
  · rename_i none
    rw [begin_ascii small, flush, if_pos none]
    rfl
  · rename_i range pending open_
    have above := (d.inner range (by simp [open_])).1
    have apart : ¬ (range.1 ≤ b ∧ b ≤ range.2) := by
      rintro ⟨low, -⟩
      exact absurd (UInt8.le_trans above low) (UInt8.not_le.2 small)
    rw [if_neg apart, begin_ascii small, flush, if_neg (by simp [open_])]

theorem decode_ascii (d : Decoder) {text : Bytes} (small : ∀ b ∈ text, b < 0x80) (some : text ≠ []) :
    decode d text = ({ markSeen := true }, flush d ++ text.map UInt8.toNat) := by
  induction text generalizing d with
  | nil => exact absurd rfl some
  | cons b rest ih =>
    simp only [decode]
    rw [put_ascii (small b List.mem_cons_self)]
    dsimp only
    cases rest with
    | nil => simp [decode]
    | cons c rest =>
      rw [ih _ (fun d member => small d (List.mem_cons_of_mem _ member)) (by simp)]
      simp [flush]

theorem decodeAll_append_ascii (stream : Bytes) {text : Bytes} (small : ∀ b ∈ text, b < 0x80)
    (some : text ≠ []) :
    decodeAll (stream ++ text) = decodeAll stream ++ text.map UInt8.toNat := by
  unfold decodeAll
  rw [decode_append, decode_ascii _ small some]
  simp [flush]

end CppCoder.Support.TextDecoder
