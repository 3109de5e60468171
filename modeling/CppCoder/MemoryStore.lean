import Mathlib.Data.List.DropRight
import CppCoder.CodebaseScanner
import CppCoder.Support.JsonValue
import CppCoder.Support.Program

/-! The remembered facts and the file they are kept in. Every public method takes one mutex, so calls
come one after another. -/

namespace CppCoder.MemoryStore
open Support Utf8 Paths JsonValue Program
open CodebaseScanner (toLower)

/-- The characters `Trim` strips: space, tab, carriage return and line feed. -/
def isBlank (b : UInt8) : Bool := b == 32 || b == 9 || b == 13 || b == 10

def trim (s : Bytes) : Bytes := (s.dropWhile isBlank).rdropWhile isBlank

def lowered (s : Bytes) : Bytes := s.map toLower

/-- The JSON library: `operator>>` and `dump(2)`. -/
structure Codec where
  parser : Parser
  dump : Json → Bytes

/-- What the system does to one save: nothing, fail `create_directories`, refuse to open the file, or
let only the first bytes reach it. -/
inductive SaveFault where
  | none
  | directory
  | opening
  | writing (kept : Nat)
  deriving DecidableEq

def SaveFault.passes : SaveFault → Bytes → Bytes
  | .writing kept, text => text.take kept
  | _, text => text

/-- The path of the file and what is decided outside, by the number of the save. -/
structure Setting where
  codec : Codec
  path : Path
  faults : Nat → SaveFault

/-- `dump` met a string that is not UTF-8. -/
inductive DumpError where
  | type
  deriving DecidableEq

structure Store where
  facts : List Bytes
  file : Option Bytes
  saves : Nat := 0
  deriving DecidableEq

/-- The loop of `Load`: a string is a fact, an object has one under its text, the rest is skipped. -/
def readFacts (facts : List Bytes) : List Json → Except JsonError (List Bytes)
  | [] => .ok facts
  | .str s :: rest => readFacts (facts ++ [s]) rest
  | .obj fields :: rest =>
      match (Json.obj fields).valueStr "text" [] with
      | .error e => .error e
      | .ok s => readFacts (facts ++ [s]) rest
  | _ :: rest => readFacts facts rest

def readDocument (parsed : Json) : Except JsonError (List Bytes) :=
  match parsed.valueJson "facts" (.arr []) with
  | .error e => .error e
  | .ok listed => readFacts [] listed.items

/-- What `Load` leaves in the list. Every exception of the library empties it. -/
def load (parser : Parser) (file : Option Bytes) : List Bytes :=
  match file.bind parser.parse with
  | none => []
  | some parsed =>
      match readDocument parsed with
      | .error _ => []
      | .ok facts => facts

def opened (parser : Parser) (file : Option Bytes) : Store := { facts := load parser file, file := file }

def document (facts : List Bytes) : Json := .obj [(ascii "facts", .arr (facts.map .str))]

/-- The save with this number returns before the file is touched: the directory cannot be made, or the
file cannot be opened. -/
def Setting.Refuses (setting : Setting) (save : Nat) : Prop :=
  ¬ setting.path.parent.isEmpty ∧ setting.faults save = .directory ∨ setting.faults save = .opening

instance (setting : Setting) (save : Nat) : Decidable (setting.Refuses save) :=
  inferInstanceAs (Decidable (_ ∨ _))

def saveLocked (setting : Setting) : EStateM DumpError Store Unit := do
  let store ← get
  if setting.Refuses store.saves then set { store with saves := store.saves + 1 }
  else
    -- the file is empty from here on, before `dump` is asked for the text
    set { store with file := some [], saves := store.saves + 1 }
    if (document store.facts).dumpable then
      let text := setting.codec.dump (document store.facts)
      set { store with file := some ((setting.faults store.saves).passes text), saves := store.saves + 1 }
    else throw .type

def known (facts : List Bytes) (text : Bytes) : Bool := facts.any fun existing => lowered existing == text

def addFact (setting : Setting) (fact : Bytes) : EStateM DumpError Store Bool := do
  let trimmed := trim fact
  if trimmed = [] then return false
  else
    let store ← get
    if known store.facts (lowered trimmed) then return false
    else
      set { store with facts := store.facts ++ [trimmed] }
      saveLocked setting
      return true

def removeFact (setting : Setting) (fact : Bytes) : EStateM DumpError Store Bool := do
  let text := lowered (trim fact)
  if text = [] then return false
  else
    let store ← get
    if known store.facts text then
      set { store with facts := store.facts.eraseP fun existing => lowered existing == text }
      saveLocked setting
      return true
    else return false

inductive Call where
  | add (fact : Bytes)
  | remove (fact : Bytes)
  deriving DecidableEq

def call (setting : Setting) : Call → EStateM DumpError Store Bool
  | .add fact => addFact setting fact
  | .remove fact => removeFact setting fact

def next (setting : Setting) (store : Store) (made : Call) : Store := finalState (call setting made store)

def reached (setting : Setting) (file : Option Bytes) (calls : List Call) : Store :=
  calls.foldl (next setting) (opened setting.codec.parser file)

def Trimmed (s : Bytes) : Prop :=
  (∀ b ∈ s.head?, isBlank b = false) ∧ ∀ b ∈ s.getLast?, isBlank b = false

theorem trim_of_trimmed {s : Bytes} (trimmed : Trimmed s) : trim s = s := by
  have front : s.dropWhile isBlank = s := by
    apply List.dropWhile_eq_self_iff.2
    intro positive
    simpa using trimmed.1 s[0] (by simp [List.head?_eq_getElem?])
  unfold trim
  rw [front, List.rdropWhile_eq_self_iff]
  intro some
  simpa using trimmed.2 _ (List.getLast?_eq_some_getLast some)

theorem trimmed_trim (s : Bytes) : Trimmed (trim s) := by
  unfold trim
  constructor
  · intro b first
    obtain ⟨rest, split⟩ := List.rdropWhile_prefix isBlank (s.dropWhile isBlank)
    have leads : b ∈ (s.dropWhile isBlank).head? := by
      rw [← split, List.head?_append, first]
      rfl
    have kept := List.head?_dropWhile_not isBlank s
    rwa [Option.mem_def.1 leads] at kept
  · intro b last
    have some : (s.dropWhile isBlank).rdropWhile isBlank ≠ [] := by
      intro none
      simp [none] at last
    have final := List.rdropWhile_last_not isBlank (s.dropWhile isBlank) some
    rw [Option.mem_def, List.getLast?_eq_some_getLast some] at last
    rw [← Option.some.inj last]
    simpa using final

@[simp] theorem lowered_eq_nil {s : Bytes} : lowered s = [] ↔ s = [] := List.map_eq_nil_iff

theorem blank_small {b : UInt8} (blank : isBlank b = true) : b < 0x80 := by
  simp only [isBlank, Bool.or_eq_true, beq_iff_eq] at blank
  obtain ((rfl | rfl) | rfl) | rfl := blank <;> decide

theorem valid_trim {s : Bytes} (valid : Valid s) : Valid (trim s) := by
  have front : Valid (s.takeWhile isBlank) :=
    valid_of_ascii fun b member => blank_small (List.mem_takeWhile_imp member)
  have rest : Valid (s.dropWhile isBlank) := by
    apply (valid_append front _).1
    rwa [List.takeWhile_append_dropWhile]
  have back : Valid ((s.dropWhile isBlank).rtakeWhile isBlank) :=
    valid_of_ascii fun b member => blank_small (List.mem_rtakeWhile_imp member)
  apply (valid_append_right back _).1
  rwa [trim, List.rdropWhile_append_rtakeWhile]

/-- The text of an entry in the forms that `Load` reads. -/
def entryText : Json → Option Bytes
  | .str s => some s
  | .obj fields => ((Json.obj fields).valueStr "text" []).toOption
  | _ => none

/-- An entry that does not make `Load` throw: if it is an object, its text is a string or missing. -/
def Readable : Json → Prop
  | .obj fields => ((Json.obj fields).valueStr "text" []).isOk
  | _ => True

theorem readFacts_eq {entries : List Json} (readable : ∀ entry ∈ entries, Readable entry)
    (facts : List Bytes) :
    readFacts facts entries = .ok (facts ++ entries.filterMap entryText) := by
  induction entries generalizing facts with
  | nil => simp [readFacts]
  | cons entry rest ih =>
    have first := readable entry List.mem_cons_self
    have others := ih fun other member => readable other (List.mem_cons_of_mem _ member)
    cases entry with
    | str s => simp [readFacts, entryText, others]
    | obj fields =>
      unfold Readable at first
      cases text : (Json.obj fields).valueStr "text" [] with
      | error e => simp [text, Except.isOk, Except.toBool] at first
      | ok s => simp [readFacts, entryText, text, others, Except.toOption]
    | _ => simpa [readFacts, entryText, List.filterMap_cons] using others facts

theorem readFacts_throws {entries : List Json} (unreadable : ∃ entry ∈ entries, ¬ Readable entry)
    (facts : List Bytes) : ∃ e, readFacts facts entries = .error e := by
  induction entries generalizing facts with
  | nil => simp at unreadable
  | cons entry rest ih =>
    cases entry with
    | obj fields =>
      unfold readFacts
      cases text : (Json.obj fields).valueStr "text" [] with
      | error e => exact ⟨e, rfl⟩
      | ok s =>
        have fine : Readable (.obj fields) := by simp [Readable, text, Except.isOk, Except.toBool]
        exact ih (by simpa [fine] using unreadable) _
    | str s => exact ih (by simpa [Readable] using unreadable) _
    | _ => exact ih (by simpa [Readable] using unreadable) facts

theorem readDocument_document (facts : List Bytes) : readDocument (document facts) = .ok facts := by
  have listed : (document facts).valueJson "facts" (.arr []) = .ok (.arr (facts.map .str)) := by
    simp [document, Json.valueJson, Json.member]
  have readable : ∀ entry ∈ facts.map Json.str, Readable entry := by
    intro entry member
    obtain ⟨s, -, rfl⟩ := List.mem_map.1 member
    trivial
  have texts : (facts.map Json.str).filterMap entryText = facts := by
    rw [List.filterMap_map]
    exact List.filterMap_some
  unfold readDocument
  simp only [listed, Json.items, readFacts_eq readable, texts, List.nil_append]

/-! ### The list -/

theorem document_dumpable (facts : List Bytes) :
    (document facts).dumpable = true ↔ ∀ f ∈ facts, Valid f := by
  unfold document
  simp

theorem saveLocked_run (setting : Setting) (store : Store) : saveLocked setting store =
    if setting.Refuses store.saves then .ok () { store with saves := store.saves + 1 }
    else if (document store.facts).dumpable then
      .ok () { store with
        file := some ((setting.faults store.saves).passes (setting.codec.dump (document store.facts)))
        saves := store.saves + 1 }
    else .error .type { store with file := some [], saves := store.saves + 1 } := by
  unfold saveLocked
  rw [bind_run]
  change (if setting.Refuses store.saves then _ else _ : EStateM DumpError Store Unit) store = _
  split_ifs with refused clean
  · rfl
  · rfl
  · rfl

def changed (facts : List Bytes) : Call → List Bytes
  | .add fact =>
      if trim fact = [] ∨ known facts (lowered (trim fact)) then facts else facts ++ [trim fact]
  | .remove fact =>
      if trim fact = [] then facts else facts.eraseP fun existing => lowered existing == lowered (trim fact)

theorem eraseP_unknown {facts : List Bytes} {text : Bytes} (unknown : ¬ known facts text = true) :
    facts.eraseP (fun existing => lowered existing == text) = facts := by
  apply List.eraseP_of_forall_not
  intro existing member same
  exact unknown (List.any_eq_true.2 ⟨existing, member, same⟩)

theorem saveLocked_facts (setting : Setting) (store : Store) :
    (finalState (saveLocked setting store)).facts = store.facts := by
  rw [saveLocked_run]
  split_ifs <;> rfl

theorem addFact_run (setting : Setting) (fact : Bytes) (store : Store) : addFact setting fact store =
    if trim fact = [] ∨ known store.facts (lowered (trim fact)) then .ok false store
    else (saveLocked setting >>= fun _ => pure true)
        { store with facts := store.facts ++ [trim fact] } := by
  unfold addFact
  by_cases none : trim fact = []
  · rw [if_pos none, if_pos (.inl none)]
    rfl
  · rw [if_neg none, bind_run]
    change (if known store.facts (lowered (trim fact)) then _ else _ : EStateM DumpError Store Bool)
      store = _
    by_cases old : known store.facts (lowered (trim fact)) = true
    · rw [if_pos old, if_pos (.inr old)]
      rfl
    · rw [if_neg old, if_neg (by tauto)]
      rfl

theorem removeFact_run (setting : Setting) (fact : Bytes) (store : Store) : removeFact setting fact store =
    if ¬ trim fact = [] ∧ known store.facts (lowered (trim fact)) then
      (saveLocked setting >>= fun _ => pure true) { store with
        facts := store.facts.eraseP fun existing => lowered existing == lowered (trim fact) }
    else .ok false store := by
  unfold removeFact
  simp only [lowered_eq_nil]
  by_cases none : trim fact = []
  · rw [if_pos none, if_neg (by tauto)]
    rfl
  · rw [if_neg none, bind_run]
    change (if known store.facts (lowered (trim fact)) then _ else _ : EStateM DumpError Store Bool)
      store = _
    by_cases old : known store.facts (lowered (trim fact)) = true
    · rw [if_pos old, if_pos ⟨none, old⟩]
      rfl
    · rw [if_neg old, if_neg (by tauto)]
      rfl

theorem next_cases (setting : Setting) (store : Store) (made : Call) :
    next setting store made = store ∧ changed store.facts made = store.facts ∨
      changed store.facts made ≠ store.facts ∧ next setting store made =
        finalState (saveLocked setting { store with facts := changed store.facts made }) := by
  cases made with
  | add fact =>
    simp only [next, call, changed]
    rw [addFact_run]
    split_ifs with refused
    · exact .inl ⟨rfl, rfl⟩
    · exact .inr ⟨by simp, finalState_then _ _ _⟩
  | remove fact =>
    simp only [next, call, changed]
    rw [removeFact_run]
    split_ifs with found none none
    · exact absurd none found.1
    · refine .inr ⟨fun same => ?_, finalState_then _ _ _⟩
      obtain ⟨f, member, named⟩ := List.any_eq_true.1 found.2
      have shorter : (store.facts.eraseP fun existing => lowered existing == lowered (trim fact)).length =
          store.facts.length - 1 := List.length_eraseP_of_mem member named
      have some := List.length_pos_of_mem member
      rw [same] at shorter
      omega
    · exact .inl ⟨rfl, rfl⟩
    · have unknown : ¬ known store.facts (lowered (trim fact)) = true := fun old => found ⟨none, old⟩
      exact .inl ⟨rfl, eraseP_unknown unknown⟩

theorem next_facts (setting : Setting) (store : Store) (made : Call) :
    (next setting store made).facts = changed store.facts made := by
  obtain ⟨same, kept⟩ | ⟨-, saved⟩ := next_cases setting store made
  · rw [same, kept]
  · rw [saved, saveLocked_facts]

theorem reached_facts (setting : Setting) (file : Option Bytes) (calls : List Call) :
    (reached setting file calls).facts = calls.foldl changed (load setting.codec.parser file) := by
  unfold reached
  change _ = calls.foldl changed (opened setting.codec.parser file).facts
  generalize opened setting.codec.parser file = store
  induction calls generalizing store with
  | nil => rfl
  | cons made rest ih => rw [List.foldl_cons, ih, next_facts, List.foldl_cons]

/-- The list as it stands after some calls. -/
def remembered (codec : Codec) (file : Option Bytes) (made : List Call) : List Bytes :=
  made.foldl changed (load codec.parser file)

end CppCoder.MemoryStore
