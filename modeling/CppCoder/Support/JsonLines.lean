import CppCoder.Support.JsonCut
import CppCoder.Support.Lines
import CppCoder.Support.TextDecoder

/-! JSON objects, one on each line, as bytes and as the text that they decode to. -/

namespace CppCoder.Support.TextDecoder
open Utf8 JsonText Lines

def marked : Decoder := { markSeen := true, inner := List.forall_mem_nil _ }

def decodeFrom (d : Decoder) (stream : Bytes) : Text := (decode d stream).2 ++ flush (decode d stream).1

theorem decodeFrom_nil {d : Decoder} (none : d.pending = []) : decodeFrom d [] = [] := if_pos none

theorem decodeFrom_ascii (d : Decoder) (first rest : Bytes) {b : UInt8} (small : b < 0x80) :
    decodeFrom d (first ++ b :: rest) = decodeFrom d first ++ b.toNat :: decodeFrom marked rest := by
  unfold decodeFrom
  rw [decode_append]
  have one : decode (decode d first).1 (b :: rest) = ((decode marked rest).1,
      flush (decode d first).1 ++ b.toNat :: (decode marked rest).2) := by
    simp only [decode]
    rw [put_ascii small]
    simp [marked]
  rw [one]
  simp

theorem decodeFrom_brace {d : Decoder} (none : d.pending = []) (rest : Bytes) :
    decodeFrom d (123 :: rest) = 123 :: decodeFrom marked rest := by
  have split := decodeFrom_ascii d [] rest (b := 123) (by decide)
  rwa [decodeFrom_nil none] at split

theorem flush_cases (d : Decoder) : flush d = [] ∨ flush d = [replacement] := by
  unfold flush
  split_ifs
  · exact .inl rfl
  · right
    unfold shown
    rw [if_neg fun early => absurd early.2 (by decide)]
    rfl

/-- What holds an object, or begins to. -/
def Braced (line : Bytes) : Prop := ∃ body, line = 123 :: body ++ [125]

variable {line tail : Bytes} {lines : List Bytes}

theorem decodeAll_braced {body : Bytes} : decodeAll (123 :: body ++ [125]) = 123 :: decodeFrom marked body ++ [125] := by
  calc decodeAll (123 :: body ++ [125])
      = decodeFrom .start ((123 :: body) ++ 125 :: []) := rfl
    _ = decodeFrom .start (123 :: body) ++ [125] := decodeFrom_ascii _ _ [] (by decide)
    _ = 123 :: decodeFrom marked body ++ [125] := by rw [decodeFrom_brace rfl]

theorem decodeFrom_braced (braced : Braced line) {d : Decoder} (none : d.pending = []) :
    decodeFrom d line = decodeAll line := by
  obtain ⟨body, rfl⟩ := braced
  change decodeFrom d (123 :: (body ++ [125])) = decodeFrom .start (123 :: (body ++ [125]))
  rw [decodeFrom_brace none, decodeFrom_brace rfl]

theorem decodeAll_joined (braced : ∀ line ∈ lines, Braced line) (begins : tail = [] ∨ ∃ rest, tail = 123 :: rest) :
    decodeAll (joined 10 lines ++ tail) = joined 10 (lines.map decodeAll) ++ decodeAll tail := by
  have all : ∀ d : Decoder, d.pending = [] →
      decodeFrom d (joined 10 lines ++ tail) = joined 10 (lines.map decodeAll) ++ decodeAll tail := by
    induction lines with
    | nil =>
      intro d none
      change decodeFrom d tail = decodeFrom .start tail
      obtain rfl | ⟨rest, rfl⟩ := begins
      · rw [decodeFrom_nil none, decodeFrom_nil rfl]
      · rw [decodeFrom_brace none, decodeFrom_brace rfl]
    | cons line rest ih =>
      intro d none
      have first := braced line List.mem_cons_self
      rw [joined_cons, List.append_assoc, List.cons_append, decodeFrom_ascii _ _ _ (by decide),
        decodeFrom_braced first none, ih (fun other member => braced other (List.mem_cons_of_mem _ member)) marked rfl,
        List.map_cons, joined_cons, List.append_assoc, List.cons_append]
      rfl
  exact all .start rfl

theorem not_mem_of_decodeAll (clean : 10 ∉ decodeAll line) : (10 : UInt8) ∉ line := by
  intro member
  obtain ⟨first, rest, rfl⟩ := List.append_of_mem member
  apply clean
  change 10 ∈ decodeFrom .start (first ++ 10 :: rest)
  rw [decodeFrom_ascii _ _ _ (by decide)]
  exact List.mem_append_right _ List.mem_cons_self

theorem trim_decodeAll (braced : Braced line) : trim (decodeAll line) = decodeAll line := by
  obtain ⟨body, rfl⟩ := braced
  rw [decodeAll_braced]
  exact trim_append [] _ rfl rfl

theorem trim_cons {c : Nat} (solid : isBlank c = false) (rest : Text) :
    ∃ kept, trim (c :: rest) = c :: kept ∧ kept <+: rest := by
  have front : (c :: rest).dropWhile isBlank = c :: rest := List.dropWhile_cons_of_neg (by simp [solid])
  have start : trim (c :: rest) <+: c :: rest := by
    unfold trim
    rw [front]
    exact List.rdropWhile_prefix _ _
  cases trimmed : trim (c :: rest) with
  | nil =>
    unfold trim at trimmed
    rw [front, List.rdropWhile_eq_nil_iff] at trimmed
    cases solid.symm.trans (trimmed c List.mem_cons_self)
  | cons d kept =>
    rw [trimmed] at start
    obtain ⟨rfl, further⟩ := List.cons_prefix_cons.1 start
    exact ⟨kept, rfl, further⟩

theorem parse_torn (braced : Braced line) (parsed : (parse (decodeAll line)).isSome = true) {k : Nat}
    (some : 0 < k) (torn : k < line.length) : parse (trim (decodeAll (line.take k))) = none := by
  obtain ⟨body, rfl⟩ := braced
  obtain ⟨j, rfl⟩ : ∃ j, k = j + 1 := ⟨k - 1, by omega⟩
  have short : j ≤ body.length := by
    simp only [List.length_append, List.length_cons, List.length_nil] at torn
    omega
  have piece : (123 :: body ++ [125]).take (j + 1) = 123 :: body.take j := by
    rw [List.cons_append, List.take_succ_cons, List.take_append_of_le_length short]
  have split : ∃ after, decodeAll (123 :: body ++ [125]) =
      (123 :: (decode marked (body.take j)).2) ++ (after ++ [125]) := by
    refine ⟨decodeFrom (decode marked (body.take j)).1 (body.drop j), ?_⟩
    have whole : decodeFrom marked body = (decode marked (body.take j)).2 ++
        decodeFrom (decode marked (body.take j)).1 (body.drop j) := by
      conv_lhs => rw [← List.take_append_drop j body]
      unfold decodeFrom
      rw [decode_append, List.append_assoc]
    rw [decodeAll_braced, whole]
    simp
  obtain ⟨after, split⟩ := split
  have text : decodeAll (123 :: body.take j) = 123 :: ((decode marked (body.take j)).2 ++
      flush (decode marked (body.take j)).1) := decodeFrom_brace rfl _
  rw [piece, text]
  obtain none | mark := flush_cases (decode marked (body.take j)).1
  · obtain ⟨kept, trimmed, rest, same⟩ := trim_cons (c := 123) rfl (decode marked (body.take j)).2
    rw [none, List.append_nil, trimmed, ← List.append_nil (123 :: kept)]
    refine parse_cut (rest ++ after) (d := 125) parsed ?_ rfl (by simp)
    rw [split, ← same]
    simp
  · have trimmed := trim_append [] (decode marked (body.take j)).2 (c := 123) (d := replacement) rfl rfl
    rw [List.nil_append, List.dropWhile_nil, List.nil_append] at trimmed
    rw [mark, ← List.cons_append, trimmed]
    refine parse_cut after parsed split rfl ?_
    intro c member
    obtain rfl := List.mem_singleton.1 member
    decide

end CppCoder.Support.TextDecoder
