import CppCoder.ExtractedNames
import CppCoder.MemoryStore

/-! That every fact that is extracted is one line of ASCII, however the message reads. -/

namespace CppCoder.ExtractedFacts
open Support Utf8 Backtracking
open MemoryStore (trim Trimmed isBlank)
open FactExtractor (extractFacts captured isNameByte isLetter isDigit patterns)

structure Line (fact : Bytes) : Prop where
  small : ∀ b ∈ fact, b < 0x80
  single : 10 ∉ fact
  trimmed : trim fact = fact
  some : fact ≠ []

theorem groupsTake_literal (word : Bytes) : (literal FactExtractor.sameLetter word).GroupsTake
    (isNameByte · = true) := by
  induction word with
  | nil => exact trivial
  | cons a rest ih => exact ⟨trivial, ih⟩

theorem nameByte_letter {b : UInt8} (letter : isLetter b = true) : isNameByte b = true := by
  unfold isNameByte FactExtractor.isWord
  rw [letter]
  rfl

theorem nameByte_digit {b : UInt8} (digit : isDigit b = true) : isNameByte b = true := by
  unfold isNameByte FactExtractor.isWord
  rw [digit, Bool.or_true]
  rfl

theorem groupsTake_name (phrase : String) : (FactExtractor.namePattern phrase).GroupsTake
    (isNameByte · = true) := by
  have word := fun text : String => groupsTake_literal (ascii text)
  have name : FactExtractor.name.Takes (isNameByte · = true) :=
    ⟨fun _ letter => nameByte_letter letter, fun _ same => same⟩
  exact ⟨trivial, word phrase, ⟨⟨word "'s", trivial, word "is"⟩, trivial⟩, trivial, name, trivial, trivial⟩

theorem groupsTake_age : FactExtractor.age.pattern.GroupsTake (isNameByte · = true) := by
  have word := fun text : String => groupsTake_literal (ascii text)
  refine ⟨trivial, word "i", ⟨word "'m", trivial, word "am"⟩, trivial, ⟨?_, trivial⟩, trivial,
    ⟨word "yo", trivial⟩, word "year", trivial, trivial, word "old", trivial⟩
  exact fun _ digit => nameByte_digit digit

theorem nameByte_plain {b : UInt8} (accepted : isNameByte b = true) : b < 0x80 ∧ b ≠ 10 := by
  have all := ExtractedNames.byte_cases (fun b => !isNameByte b || (decide (b < 0x80) && b != 10))
    (by decide +kernel) b
  simp only [accepted, Bool.not_true, Bool.false_or, Bool.and_eq_true, decide_eq_true_eq, bne_iff_ne] at all
  exact all

theorem line_around {before after : String} {inside : Bytes} (plain : ∀ b ∈ inside, isNameByte b = true)
    (first : ∃ b rest, ascii before = b :: rest ∧ isBlank b = false)
    (last : ∃ rest b, ascii after = rest ++ [b] ∧ isBlank b = false)
    (single : 10 ∉ ascii before ++ ascii after) : Line (ascii before ++ inside ++ ascii after) := by
  obtain ⟨b, start, opening, marked⟩ := first
  obtain ⟨rest, c, closing, ended⟩ := last
  rw [List.mem_append, not_or] at single
  refine ⟨fun d member => ?_, fun member => ?_, ?_, by simp [opening]⟩
  · rw [List.append_assoc] at member
    obtain head | member := List.mem_append.1 member
    · exact ascii_small before d head
    · obtain mid | tail := List.mem_append.1 member
      · exact (nameByte_plain (plain d mid)).1
      · exact ascii_small after d tail
  · rw [List.append_assoc] at member
    obtain head | member := List.mem_append.1 member
    · exact single.1 head
    · obtain mid | tail := List.mem_append.1 member
      · exact (nameByte_plain (plain 10 mid)).2 rfl
      · exact single.2 tail
  · apply MemoryStore.trim_of_trimmed
    constructor
    · intro d there
      rw [opening, List.cons_append, List.cons_append, List.head?_cons, Option.mem_some] at there
      exact there ▸ marked
    · intro d there
      rw [closing, ← List.append_assoc, List.getLast?_append_of_ne_nil _ (by simp), List.getLast?_singleton,
        Option.mem_some] at there
      exact there ▸ ended

theorem line_extracted {message fact : Bytes} (member : fact ∈ extractFacts message) : Line fact := by
  obtain ⟨p, listed, found⟩ := List.mem_filterMap.1 member
  obtain ⟨m, searched, rfl⟩ := Option.map_eq_some_iff.1 found
  simp only [patterns, List.mem_cons, List.not_mem_nil, or_false] at listed
  obtain rfl | rfl | rfl := listed
  · exact line_around (search_groups (groupsTake_name _) searched 1) ⟨_, _, rfl, rfl⟩ ⟨[], _, rfl, rfl⟩
      (by decide)
  · exact line_around (search_groups (groupsTake_name _) searched 1) ⟨_, _, rfl, rfl⟩ ⟨[], _, rfl, rfl⟩
      (by decide)
  · exact line_around (search_groups groupsTake_age searched 1) ⟨_, _, rfl, rfl⟩
      ⟨ascii " years old", _, rfl, rfl⟩ (by decide)

end CppCoder.ExtractedFacts
