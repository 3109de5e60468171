import CppCoder.Session
import CppCoder.Support.JsonLines
import CppCoder.Support.JsonSame
import CppCoder.Support.JsonWriting
import Mathlib.Algebra.Field.Rat
import Mathlib.Algebra.Ring.Int.Defs

/-! The file that the sink of a run writes, one event on each line, and the two programs that read it: the
page and `replay_demo`. What they say about lines that hold no JSON is left out. -/

namespace CppCoder.EventsFile
open Support Utf8 JsonText JsonValue TextDecoder Lines

/-- Each event is dumped and gets a line; the file was emptied first. -/
def eventsFile (dump : Json → Bytes) (events : List Json) : Bytes := joined 10 (events.map dump)

def encodePoint (p : Nat) : Bytes :=
  if p < 0x80 then [UInt8.ofNat p]
  else if p < 0x800 then [UInt8.ofNat (0xC0 + p / 64), UInt8.ofNat (0x80 + p % 64)]
  else if p < 0x10000 then
    [UInt8.ofNat (0xE0 + p / 4096), UInt8.ofNat (0x80 + p / 64 % 64), UInt8.ofNat (0x80 + p % 64)]
  else
    [UInt8.ofNat (0xF0 + p / 262144), UInt8.ofNat (0x80 + p / 4096 % 64), UInt8.ofNat (0x80 + p / 64 % 64),
      UInt8.ofNat (0x80 + p % 64)]

/-- A JavaScript string in UTF-8; half of a pair that stands alone is encoded like a character. -/
def encode : Text → Bytes
  | [] => []
  | [c] => encodePoint c
  | c :: d :: rest =>
      if isHigh c && isLow d then encodePoint (0x10000 + (c - 0xD800) * 0x400 + (d - 0xDC00)) ++ encode rest
      else encodePoint c ++ encode (d :: rest)

def numberOf (n : Number) : Json :=
  let digits : Int := if n.negative then -n.digits else n.digits
  if 0 ≤ n.exponent then .integer (digits * 10 ^ n.exponent.toNat)
  else .float (digits / 10 ^ n.exponent.natAbs)

mutual

/-- A value of the page under the names that the engine has for it. Of members with one name the last
counts. -/
def jsonOf : Value → Json
  | .null => .null
  | .bool b => .bool b
  | .number n => numberOf n
  | .str s => .str (encode s)
  | .arr items => .arr (jsonItems items)
  | .obj members => .obj (jsonMembers members).reverse

def jsonItems : List Value → List Json
  | [] => []
  | item :: rest => jsonOf item :: jsonItems rest

def jsonMembers : List (Text × Value) → List (Bytes × Json)
  | [] => []
  | (key, v) :: rest => (encode key, jsonOf v) :: jsonMembers rest

end

def parseJsonl (text : Text) : List Value :=
  ((((text.splitOn 10).map trim).filter fun l => !l.isEmpty).filterMap parse).filter fun v => truthy (some v)

def loaded (file : Bytes) : List Json := (parseJsonl (decodeAll file)).map jsonOf

/-- The lines that `getline` reads until it fails: nothing is left behind a line end at the end. -/
def getlines (text : Bytes) : List Bytes :=
  let pieces := text.splitOn 10
  if (pieces.getLastD []).isEmpty then pieces.dropLast else pieces

def isBlankByte (b : UInt8) : Bool := b == 32 || b == 9 || b == 13 || b == 10

def loadLine (parser : Parser) (line : Bytes) : Option Json :=
  if line.all isBlankByte then none else parser.parse line

def loadEvents (parser : Parser) (file : Bytes) : List Json := (getlines file).filterMap (loadLine parser)

/-! ### Both read what was written -/

/-- What `dump`, `JSON.parse` and `json::parse` make of one event: its text stands on one line between
braces, both parsers read from it what was dumped, and `json::parse` throws on a text that was cut off. -/
structure Dumped (parser : Parser) (dump : Json → Bytes) (e : Json) : Prop where
  braced : Braced (dump e)
  line : 10 ∉ decodeAll (dump e)
  read : ∃ v, parse (decodeAll (dump e)) = some v ∧ (jsonOf v).same e = true
  parsed : ∃ e', parser.parse (dump e) = some e' ∧ e'.same e = true
  torn : ∀ k < (dump e).length, parser.parse ((dump e).take k) = none

def readLine (line : Text) : Option Value :=
  if (trim line).isEmpty then none else (parse (trim line)).filter fun v => truthy (some v)

theorem parseJsonl_eq (text : Text) : parseJsonl text = (text.splitOn 10).filterMap readLine := by
  unfold parseJsonl
  generalize text.splitOn 10 = lines
  induction lines with
  | nil => rfl
  | cons line rest ih =>
    rw [List.filterMap_cons, ← ih, List.map_cons, List.filter_cons]
    unfold readLine
    cases blank : (trim line).isEmpty with
    | true => rfl
    | false =>
      cases found : parse (trim line) with
      | none => simp [found]
      | some v => cases truth : truthy (some v) <;> simp [found, truth, Option.filter]

variable {parser : Parser} {dump : Json → Bytes} {e : Json} {events : List Json}

theorem truthy_of_same {v : Value} {fields : List (Bytes × Json)} (same : (jsonOf v).same (.obj fields) = true) :
    truthy (some v) = true := by
  cases v with
  | obj members => rfl
  | arr items => rfl
  | number n =>
    unfold jsonOf numberOf at same
    split_ifs at same <;> simp [Json.same, Json.number] at same
  | _ => simp [jsonOf, Json.same, Json.number] at same

theorem readLine_dumped (dumped : Dumped parser dump e) (object : ∃ fields, e = .obj fields) :
    ∃ v, readLine (decodeAll (dump e)) = some v ∧ (jsonOf v).same e = true := by
  obtain ⟨fields, rfl⟩ := object
  obtain ⟨v, read, same⟩ := dumped.read
  refine ⟨v, ?_, same⟩
  have some : (decodeAll (dump (.obj fields))).isEmpty = false := by
    obtain ⟨body, text⟩ := dumped.braced
    rw [text, decodeAll_braced]
    rfl
  unfold readLine
  rw [trim_decodeAll dumped.braced, some, read, if_neg Bool.false_ne_true]
  exact Option.filter_some_pos (truthy_of_same same)

theorem readLine_torn (dumped : Dumped parser dump e) {k : Nat} (torn : k < (dump e).length) :
    readLine (decodeAll ((dump e).take k)) = none := by
  unfold readLine
  cases k with
  | zero => rfl
  | succ k =>
    obtain ⟨v, read, -⟩ := dumped.read
    rw [parse_torn dumped.braced (by rw [read]; rfl) (Nat.succ_pos k) torn]
    split_ifs <;> rfl

theorem decodeAll_take_clean {line : Bytes} (clean : 10 ∉ decodeAll line) (k : Nat) :
    10 ∉ decodeAll (line.take k) := by
  unfold decodeAll at clean ⊢
  rw [← List.take_append_drop k line, decode_append] at clean
  intro member
  obtain shown | flushed := List.mem_append.1 member
  · exact clean (List.mem_append_left _ (List.mem_append_left _ shown))
  · obtain none | mark := flush_cases (decode .start (line.take k)).1
    · simp [none] at flushed
    · rw [mark] at flushed
      cases List.mem_singleton.1 flushed

/-- What both programs have read: the same events, but for the order of members and the kinds of numbers. -/
def Same (read events : List Json) : Prop := List.Forall₂ (fun a b => a.same b = true) read events

theorem Same.append {first second events others : List Json} (one : Same first events)
    (two : Same second others) : Same (first ++ second) (events ++ others) := List.rel_append one two

theorem lines_read (each : ∀ e ∈ events, Dumped parser dump e) (objects : ∀ e ∈ events, ∃ fields, e = .obj fields) :
    Same (((events.map fun e => decodeAll (dump e)).filterMap readLine).map jsonOf) events := by
  induction events with
  | nil => exact .nil
  | cons e rest ih =>
    obtain ⟨v, read, same⟩ := readLine_dumped (each e List.mem_cons_self) (objects e List.mem_cons_self)
    rw [List.map_cons, List.filterMap_cons_some read, List.map_cons]
    exact .cons same (ih (fun f member => each f (List.mem_cons_of_mem _ member))
      fun f member => objects f (List.mem_cons_of_mem _ member))

theorem loadLine_dumped (dumped : Dumped parser dump e) :
    ∃ e', loadLine parser (dump e) = some e' ∧ e'.same e = true := by
  obtain ⟨e', parsed, same⟩ := dumped.parsed
  refine ⟨e', ?_, same⟩
  obtain ⟨body, text⟩ := dumped.braced
  have solid : (dump e).all isBlankByte = false := by
    rw [text]
    rfl
  unfold loadLine
  rw [solid, if_neg Bool.false_ne_true, parsed]

theorem loadLine_torn (dumped : Dumped parser dump e) {k : Nat} (torn : k < (dump e).length) :
    loadLine parser ((dump e).take k) = none := by
  unfold loadLine
  rw [dumped.torn k torn]
  split_ifs <;> rfl

theorem lines_loaded (each : ∀ e ∈ events, Dumped parser dump e) :
    Same ((events.map dump).filterMap (loadLine parser)) events := by
  induction events with
  | nil => exact .nil
  | cons e rest ih =>
    obtain ⟨e', loads, same⟩ := loadLine_dumped (each e List.mem_cons_self)
    rw [List.map_cons, List.filterMap_cons_some loads]
    exact .cons same (ih fun f member => each f (List.mem_cons_of_mem _ member))

theorem loadEvents_eq (file : Bytes) : loadEvents parser file = (file.splitOn 10).filterMap (loadLine parser) := by
  unfold loadEvents getlines
  dsimp only
  split_ifs with blank
  · obtain ⟨pieces, last, split⟩ :=
      (List.eq_nil_or_concat (file.splitOn 10)).resolve_left (List.splitOn_ne_nil _ _)
    rw [split] at blank ⊢
    obtain rfl : last = [] := by simpa using blank
    have passed : loadLine parser [] = none := rfl
    simp [passed]
  · rfl

section
variable (each : ∀ e ∈ events, Dumped parser dump e)
include each

theorem dumped_lines : ∀ line ∈ events.map dump, Braced line ∧ 10 ∉ line ∧ 10 ∉ decodeAll line := by
  intro line member
  obtain ⟨e, there, rfl⟩ := List.mem_map.1 member
  exact ⟨(each e there).braced, not_mem_of_decodeAll (each e there).line, (each e there).line⟩

theorem loaded_lines {tail : Bytes} (begins : tail = [] ∨ ∃ rest, tail = 123 :: rest)
    (clean : 10 ∉ decodeAll tail) :
    loaded (eventsFile dump events ++ tail) =
      ((events.map fun e => decodeAll (dump e)).filterMap readLine).map jsonOf ++
        ((readLine (decodeAll tail)).map jsonOf).toList := by
  have lines := dumped_lines each
  have texts : ∀ text ∈ (events.map dump).map decodeAll, 10 ∉ text := by
    intro text member
    obtain ⟨line, there, rfl⟩ := List.mem_map.1 member
    exact (lines line there).2.2
  unfold loaded eventsFile
  rw [parseJsonl_eq, decodeAll_joined (fun line there => (lines line there).1) begins, splitOn_joined texts clean,
    List.filterMap_append, List.map_append, List.map_map]
  congr 1
  cases found : readLine (decodeAll tail) <;> simp [found]

theorem loadEvents_lines {tail : Bytes} (clean : 10 ∉ tail) :
    loadEvents parser (eventsFile dump events ++ tail) =
      (events.map dump).filterMap (loadLine parser) ++ (loadLine parser tail).toList := by
  have lines := dumped_lines each
  unfold eventsFile
  rw [loadEvents_eq, splitOn_joined (fun line there => (lines line there).2.1) clean, List.filterMap_append]
  congr 1

end

theorem tail_read (dumped : Dumped parser dump e) (object : ∃ fields, e = .obj fields) (rest : List Json) (k : Nat) :
    ∃ j, Same ((readLine (decodeAll ((dump e).take k))).map jsonOf).toList ((e :: rest).take j) ∧
      Same (loadLine parser ((dump e).take k)).toList ((e :: rest).take j) ∧
      (eventsFile dump ((e :: rest).take j)).length ≤ ((dump e).take k).length + 1 := by
  by_cases torn : k < (dump e).length
  · refine ⟨0, ?_, ?_, Nat.zero_le _⟩
    · rw [readLine_torn dumped torn]
      exact .nil
    · rw [loadLine_torn dumped torn]
      exact .nil
  · obtain ⟨v, read, one⟩ := readLine_dumped dumped object
    obtain ⟨e', loads, two⟩ := loadLine_dumped dumped
    rw [List.take_of_length_le (by omega), read, loads]
    exact ⟨1, .cons one .nil, .cons two .nil, by simp [eventsFile, joined]⟩

/-- However much of the file there is, both programs read from it the events that it holds whole. The last
of them may lack its line end. -/
theorem file_read (each : ∀ e ∈ events, Dumped parser dump e) (objects : ∀ e ∈ events, ∃ fields, e = .obj fields)
    (n : Nat) :
    ∃ m, Same (loaded ((eventsFile dump events).take n)) (events.take m) ∧
      Same (loadEvents parser ((eventsFile dump events).take n)) (events.take m) ∧
      (eventsFile dump (events.take m)).length ≤ n + 1 ∧
      ∀ j ≤ events.length, (eventsFile dump (events.take j)).length ≤ n → j ≤ m := by
  obtain ⟨m, k, cut, most⟩ := take_joined (10 : UInt8) n (events.map dump)
  have whole : ∀ j, joined 10 ((events.map dump).take j) = eventsFile dump (events.take j) := by
    intro j
    rw [← List.map_take]
    rfl
  have before : ∀ e ∈ events.take m, Dumped parser dump e := fun e member => each e (List.mem_of_mem_take member)
  have boxed : ∀ e ∈ events.take m, ∃ fields, e = .obj fields :=
    fun e member => objects e (List.mem_of_mem_take member)
  have counted : ∀ j ≤ events.length, (eventsFile dump (events.take j)).length ≤ n → j ≤ m := by
    intro j short fits
    exact most j (by simpa using short) (by rwa [whole])
  change (eventsFile dump events).take n = _ at cut
  rw [whole, ← List.map_drop] at cut
  have size : ((eventsFile dump events).take n).length ≤ n := List.length_take_le _ _
  rw [cut, List.length_append] at size
  rw [cut]
  cases behind : events.drop m with
  | nil =>
    have page := loaded_lines before (.inl rfl) (by simp [decodeAll, decode, flush, Decoder.start])
    have lines := loadEvents_lines before (List.not_mem_nil (a := 10))
    have none : ((List.map dump []).headD []).take k = [] := List.take_nil
    rw [none, page, lines]
    have blank : readLine (decodeAll []) = Option.none := rfl
    have passed : loadLine parser [] = Option.none := rfl
    rw [blank, passed]
    refine ⟨m, ?_, ?_, by omega, counted⟩
    · exact (List.append_nil _).symm ▸ lines_read before boxed
    · exact (List.append_nil _).symm ▸ lines_loaded before
  | cons e rest =>
    have member : e ∈ events := List.mem_of_mem_drop (behind ▸ List.mem_cons_self)
    have dumped := each e member
    obtain ⟨j, page, lines, bound⟩ := tail_read dumped (objects e member) rest k
    rw [behind, List.map_cons, List.headD_cons] at size
    have begins : (dump e).take k = [] ∨ ∃ rest, (dump e).take k = 123 :: rest := by
      obtain ⟨body, text⟩ := dumped.braced
      rw [text]
      cases k with
      | zero => exact .inl rfl
      | succ k => exact .inr ⟨_, rfl⟩
    have clean := decodeAll_take_clean dumped.line k
    rw [List.map_cons, List.headD_cons, loaded_lines before begins clean,
      loadEvents_lines before (not_mem_of_decodeAll clean)]
    refine ⟨m + j, ?_, ?_, ?_, fun i short fits => (counted i short fits).trans (Nat.le_add_right m j)⟩
    · rw [List.take_add, behind]
      exact (lines_read before boxed).append page
    · rw [List.take_add, behind]
      exact (lines_loaded before).append lines
    · have split : eventsFile dump (events.take (m + j)) =
          eventsFile dump (events.take m) ++ eventsFile dump ((e :: rest).take j) := by
        unfold eventsFile
        rw [List.take_add, behind, List.map_append, joined_append]
      rw [split, List.length_append]
      omega

/-! Two events as they are in a file, the second cut off within a character. -/

/-- What `Dumped` asks for of a parser that knows a table of texts, computed. -/
def checked (entries : List (Bytes × Json)) (dump : Json → Bytes) (e : Json) : Bool :=
  (123 :: ((dump e).drop 1).dropLast ++ [125] == dump e) && !(decodeAll (dump e)).contains 10 &&
    (parse (decodeAll (dump e))).any (fun v => (jsonOf v).same e) &&
    (entries.lookup (dump e)).any (fun e' => e'.same e) &&
    entries.all fun entry => entry.1 == dump e || !entry.1.isPrefixOf (dump e)

theorem dumped_of_checked {entries : List (Bytes × Json)} {clean : ∀ e ∈ entries, e.2.dumpable = true}
    (holds : checked entries dump e = true) : Dumped (.table entries clean) dump e := by
  simp only [checked, Bool.and_eq_true, beq_iff_eq] at holds
  obtain ⟨⟨⟨⟨braced, line⟩, read⟩, parsed⟩, torn⟩ := holds
  refine ⟨⟨_, braced.symm⟩, by simpa using line, ?_, ?_, ?_⟩
  · obtain ⟨v, there, same⟩ := Option.any_eq_true _ _ |>.1 read
    exact ⟨v, there, same⟩
  · obtain ⟨e', there, same⟩ := Option.any_eq_true _ _ |>.1 parsed
    exact ⟨e', there, same⟩
  · intro k short
    refine List.lookup_eq_none_iff.2 fun entry member => ?_
    rw [bne_iff_ne]
    intro same
    have apart := List.all_eq_true.1 torn entry member
    rw [← same, List.isPrefixOf_iff_prefix.2 (List.take_prefix k _), Bool.not_true, Bool.or_false, beq_iff_eq] at apart
    have lengths := congrArg List.length apart
    rw [List.length_take] at lengths
    omega

def asking : Bytes := ascii "o" ++ [195, 185] ++ ascii " est le cache"

def twoEvents : List Json :=
  [Session.event "question" [("question", .str asking)],
    Session.event "answer_progress" [("id", .str (ascii "seed")), ("summary", .str asking)]]

def dumps (events : List Json) : List (Bytes × Json) := events.map fun e => (compact e, e)

def twoParser : Parser := .table (dumps twoEvents) (by decide +kernel)

example : ∃ m,
    Same (loaded ((eventsFile compact twoEvents).take 102)) (twoEvents.take m) ∧
      Same (loadEvents twoParser ((eventsFile compact twoEvents).take 102)) (twoEvents.take m) ∧
      (eventsFile compact (twoEvents.take m)).length ≤ 103 ∧
      ∀ j ≤ 2, (eventsFile compact (twoEvents.take j)).length ≤ 102 → j ≤ m :=
  file_read (fun e member => dumped_of_checked
      (List.all_eq_true.1 (show twoEvents.all (checked (dumps twoEvents) compact) = true by decide +kernel) e member))
    (fun e member => by
      obtain rfl | rfl := List.mem_pair.1 member
      · exact ⟨_, rfl⟩
      · exact ⟨_, rfl⟩) 102

end CppCoder.EventsFile
