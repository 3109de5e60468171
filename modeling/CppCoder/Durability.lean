import CppCoder.MemoryStore

/-! What a store that is opened again finds. The log keeps, beside the store, the list that the last
successful save has written; a save that is cut short leaves a text that nothing is read from. -/

namespace CppCoder.Durability
open Support Utf8 Paths JsonValue Program MemoryStore

/-- The text of the facts, which is read back whole and not in part. -/
structure Faithful (codec : Codec) (facts : List Bytes) : Prop where
  inverts : codec.parser.parse (codec.dump (document facts)) = some (document facts)
  cut : ∀ kept < (codec.dump (document facts)).length,
    codec.parser.parse ((codec.dump (document facts)).take kept) = none

/-- The save with this number opens the file. -/
def Opens (setting : Setting) (save : Nat) : Prop := ¬ setting.Refuses save

/-- All of the text of the facts passes. -/
def Passes (setting : Setting) (save : Nat) (facts : List Bytes) : Prop :=
  (setting.faults save).passes (setting.codec.dump (document facts)) = setting.codec.dump (document facts)

def Stores (setting : Setting) (save : Nat) (facts : List Bytes) : Prop :=
  Opens setting save ∧ (document facts).dumpable = true ∧ Passes setting save facts

instance (setting : Setting) (save : Nat) (facts : List Bytes) : Decidable (Stores setting save facts) :=
  inferInstanceAs (Decidable (¬ _ ∧ _ ∧ _ = _))

structure Log where
  store : Store
  /-- What the last successful save stored; before the first, what the file held. -/
  stored : List Bytes
  /-- The last save succeeded, or there was none. -/
  current : Bool

def Log.next (setting : Setting) (log : Log) (made : Call) : Log :=
  let store := MemoryStore.next setting log.store made
  if store.saves = log.store.saves then { log with store := store }
  else if Stores setting log.store.saves store.facts then ⟨store, store.facts, true⟩
  else ⟨store, log.stored, false⟩

def logged (setting : Setting) (file : Option Bytes) (made : List Call) : Log :=
  made.foldl (Log.next setting)
    ⟨opened setting.codec.parser file, load setting.codec.parser file, true⟩

def Log.reopened (setting : Setting) (log : Log) : List Bytes := load setting.codec.parser log.store.file

def Durable (setting : Setting) (file : Option Bytes) (calls : List Call) : Prop :=
  (∀ made, made <+: calls → (logged setting file made).reopened setting =
    if (logged setting file made).current then (logged setting file made).store.facts
    else (logged setting file made).stored) ∧
  ∀ made c, made ++ [c] <+: calls → (logged setting file (made ++ [c])).current = false →
    (logged setting file made).reopened setting ⊆ (logged setting file (made ++ [c])).reopened setting

/-- The call saves, the file is opened for it, and the text is cut short. -/
def Tears (setting : Setting) (store : Store) (made : Call) : Prop :=
  changed store.facts made ≠ store.facts ∧ Opens setting store.saves ∧
    ¬ Passes setting store.saves (changed store.facts made)

/-! ### One call -/

theorem load_stored {codec : Codec} {facts : List Bytes} (faithful : Faithful codec facts) :
    load codec.parser (some (codec.dump (document facts))) = facts := by
  unfold load
  rw [Option.bind_some, faithful.inverts]
  simp only [readDocument_document]

theorem load_torn {setting : Setting} {save : Nat} {facts : List Bytes}
    (faithful : Faithful setting.codec facts) (torn : ¬ Passes setting save facts) :
    load setting.codec.parser
      (some ((setting.faults save).passes (setting.codec.dump (document facts)))) = [] := by
  unfold Passes at torn
  cases fault : setting.faults save with
  | writing kept =>
    simp only [fault, SaveFault.passes] at torn ⊢
    have short : kept < (setting.codec.dump (document facts)).length := by
      by_contra long
      exact torn (List.take_of_length_le (by omega))
    unfold load
    rw [Option.bind_some, faithful.cut kept short]
  | _ => simp [fault, SaveFault.passes] at torn

theorem next_ends (setting : Setting) (log : Log) (made : Call)
    (valid : ∀ f ∈ changed log.store.facts made, Valid f) :
    log.next setting made = log ∧ changed log.store.facts made = log.store.facts ∨
    ¬ Opens setting log.store.saves ∧ (log.next setting made).stored = log.stored ∧
      (log.next setting made).current = false ∧ (log.next setting made).store.file = log.store.file ∨
    Passes setting log.store.saves (changed log.store.facts made) ∧
      (log.next setting made).stored = changed log.store.facts made ∧
        (log.next setting made).current = true ∧
      (log.next setting made).store.facts = changed log.store.facts made ∧
      (log.next setting made).store.file =
        some (setting.codec.dump (document (changed log.store.facts made))) ∨
    Tears setting log.store made ∧ (log.next setting made).stored = log.stored ∧
      (log.next setting made).current = false ∧ (log.next setting made).store.file =
        some ((setting.faults log.store.saves).passes
          (setting.codec.dump (document (changed log.store.facts made)))) := by
  have clean := (document_dumpable _).2 valid
  obtain ⟨same, kept⟩ | ⟨differs, saved⟩ := next_cases setting log.store made
  · left
    simp only [Log.next, same, if_true]
    exact ⟨trivial, kept⟩
  · right
    rw [saveLocked_run] at saved
    simp only [clean, if_true] at saved
    by_cases refused : setting.Refuses log.store.saves
    · left
      rw [if_pos refused] at saved
      have failed : ¬ Stores setting log.store.saves (changed log.store.facts made) := fun s => s.1 refused
      refine ⟨fun opens => opens refused, ?_⟩
      simp [Log.next, saved, finalState, failed]
    · right
      rw [if_neg refused] at saved
      by_cases whole : Passes setting log.store.saves (changed log.store.facts made)
      · left
        have succeeded : Stores setting log.store.saves (changed log.store.facts made) :=
          ⟨refused, clean, whole⟩
        refine ⟨whole, ?_⟩
        unfold Passes at whole
        simp [Log.next, saved, finalState, succeeded, whole]
      · right
        have failed : ¬ Stores setting log.store.saves (changed log.store.facts made) :=
          fun s => whole s.2.2
        refine ⟨⟨differs, refused, whole⟩, ?_⟩
        simp [Log.next, saved, finalState, failed]

/-! ### Every run -/

theorem logged_append (setting : Setting) (file : Option Bytes) (made : List Call) (c : Call) :
    logged setting file (made ++ [c]) = (logged setting file made).next setting c := by
  simp [logged]

theorem logged_store (setting : Setting) (file : Option Bytes) (made : List Call) :
    (logged setting file made).store = reached setting file made := by
  induction made using List.reverseRecOn with
  | nil => rfl
  | append_singleton made c ih =>
    rw [logged_append]
    have moved : ((logged setting file made).next setting c).store =
        next setting (logged setting file made).store c := by
      unfold Log.next
      dsimp only
      split_ifs <;> rfl
    rw [moved, ih]
    simp [reached]

def text : Call → Bytes
  | .add fact => fact
  | .remove fact => fact

theorem valid_readFacts {entries : List Json} (clean : ∀ entry ∈ entries, entry.dumpable = true)
    {facts read : List Bytes} (valid : ∀ f ∈ facts, Valid f) (done : readFacts facts entries = .ok read) :
    ∀ f ∈ read, Valid f := by
  induction entries generalizing facts with
  | nil =>
    unfold readFacts at done
    exact Except.ok.inj done ▸ valid
  | cons entry rest ih =>
    have first := clean entry List.mem_cons_self
    have others : ∀ other ∈ rest, other.dumpable = true := fun other member =>
      clean other (List.mem_cons_of_mem _ member)
    have grown : ∀ s, Valid s → ∀ f ∈ facts ++ [s], Valid f := by
      intro s whole f member
      obtain old | new := List.mem_append.1 member
      · exact valid f old
      · exact List.mem_singleton.1 new ▸ whole
    cases entry with
    | str s => exact ih others (grown s ((dumpable_str s).1 first)) done
    | obj fields =>
      unfold readFacts at done
      cases found : (Json.obj fields).valueStr "text" [] with
      | error e => simp [found] at done
      | ok s =>
        rw [found] at done
        exact ih others (grown s (valid_valueStr first valid_nil found)) done
    | _ => exact ih others valid done

theorem valid_load (parser : Parser) (file : Option Bytes) : ∀ f ∈ load parser file, Valid f := by
  intro f member
  unfold load at member
  cases content : file.bind parser.parse with
  | none => simp [content] at member
  | some parsed =>
    obtain ⟨written, -, parses⟩ := Option.bind_eq_some_iff.1 content
    have clean := parser.dumpable written parsed parses
    cases read : readDocument parsed with
    | error e => simp [content, read] at member
    | ok facts =>
      simp only [content, read] at member
      unfold readDocument at read
      cases listed : parsed.valueJson "facts" (.arr []) with
      | error e => simp [listed] at read
      | ok entries =>
        rw [listed] at read
        have items := dumpable_items (dumpable_valueJson clean (by simp) listed)
        exact valid_readFacts items (by simp) read f member

theorem valid_changed {facts : List Bytes} (valid : ∀ f ∈ facts, Valid f) {c : Call}
    (utf8 : Valid (text c)) :
    ∀ f ∈ changed facts c, Valid f := by
  intro f member
  cases c with
  | add fact =>
    simp only [changed] at member
    split_ifs at member
    · exact valid f member
    · obtain old | new := List.mem_append.1 member
      · exact valid f old
      · exact List.mem_singleton.1 new ▸ valid_trim utf8
  | remove fact =>
    simp only [changed] at member
    split_ifs at member
    · exact valid f member
    · exact valid f (List.mem_of_mem_eraseP member)

theorem remembered_append (codec : Codec) (file : Option Bytes) (made : List Call) (c : Call) :
    remembered codec file (made ++ [c]) = changed (remembered codec file made) c := by
  simp [remembered]

theorem valid_remembered (codec : Codec) (file : Option Bytes) {made : List Call}
    (utf8 : ∀ c ∈ made, Valid (text c)) : ∀ f ∈ remembered codec file made, Valid f := by
  induction made using List.reverseRecOn with
  | nil => exact valid_load codec.parser file
  | append_singleton made c ih =>
    rw [remembered_append]
    exact valid_changed (ih fun other member => utf8 other (by simp [member])) (utf8 c (by simp))

/-- What holds between the calls while no save destroys a list that was stored. -/
structure Sound (setting : Setting) (log : Log) : Prop where
  reopened : log.reopened setting = log.stored
  current : log.current = true → log.stored = log.store.facts

theorem Sound.next {setting : Setting} {log : Log} (sound : Sound setting log) (made : Call)
    (valid : ∀ f ∈ changed log.store.facts made, Valid f)
    (faithful : Faithful setting.codec (changed log.store.facts made))
    (spared : Tears setting log.store made → log.stored = []) :
    Sound setting (log.next setting made) ∧
      ((log.next setting made).current = false →
        log.reopened setting ⊆ (log.next setting made).reopened setting) := by
  obtain ⟨same, -⟩ | ⟨-, stored, failed, file⟩ | ⟨-, stored, now, facts, file⟩ | ⟨tears, stored,
    failed, file⟩ :=
    next_ends setting log made valid
  · rw [same]
    exact ⟨sound, fun _ => List.Subset.refl _⟩
  · have found : (log.next setting made).reopened setting = log.reopened setting := by
      unfold Log.reopened
      rw [file]
    refine ⟨⟨?_, fun now => ?_⟩, fun _ => ?_⟩
    · rw [found, stored, sound.reopened]
    · simp [failed] at now
    · rw [found]
      exact List.Subset.refl _
  · have found : (log.next setting made).reopened setting = changed log.store.facts made := by
      unfold Log.reopened
      rw [file, load_stored faithful]
    refine ⟨⟨?_, fun _ => ?_⟩, fun stale => ?_⟩
    · rw [found, stored]
    · rw [stored, facts]
    · simp [now] at stale
  · have found : (log.next setting made).reopened setting = [] := by
      unfold Log.reopened
      rw [file, load_torn faithful tears.2.2]
    have empty := spared tears
    refine ⟨⟨?_, fun now => ?_⟩, fun _ => ?_⟩
    · rw [found, stored, empty]
    · simp [failed] at now
    · rw [sound.reopened, empty]
      exact List.nil_subset _

/-- The stored list survives every failure of a save but one that cuts the text short. -/
theorem durable_iff (setting : Setting) (file : Option Bytes) (calls : List Call)
    (utf8 : ∀ c ∈ calls, Valid (text c))
    (faithful : ∀ made, made <+: calls → Faithful setting.codec (remembered setting.codec file made)) :
    Durable setting file calls ↔ ∀ made c, made ++ [c] <+: calls →
      Tears setting (reached setting file made) c → (logged setting file made).stored = [] := by
  have facts : ∀ made, (logged setting file made).store.facts = remembered setting.codec file made := by
    intro made
    rw [logged_store, reached_facts]
    rfl
  have valid : ∀ made c, made ++ [c] <+: calls →
      ∀ f ∈ changed (logged setting file made).store.facts c, Valid f := by
    intro made c part
    rw [facts, ← remembered_append]
    exact valid_remembered _ _ fun other member => utf8 other (part.subset member)
  have readable : ∀ made c, made ++ [c] <+: calls →
      Faithful setting.codec (changed (logged setting file made).store.facts c) := by
    intro made c part
    rw [facts, ← remembered_append]
    exact faithful _ part
  constructor
  · rintro ⟨durable, -⟩ made c part tears
    rw [← logged_store] at tears
    obtain ⟨-, same⟩ | ⟨closed, -⟩ | ⟨whole, -⟩ | ⟨-, stored, failed, kept⟩ :=
      next_ends setting (logged setting file made) c (valid made c part)
    · exact absurd same tears.1
    · exact absurd tears.2.1 closed
    · exact absurd whole tears.2.2
    · have found := durable _ part
      rw [logged_append, failed, if_neg Bool.false_ne_true, stored] at found
      unfold Log.reopened at found
      rw [kept, load_torn (readable made c part) tears.2.2] at found
      exact found.symm
  · intro spared
    have sound : ∀ made, made <+: calls → Sound setting (logged setting file made) := by
      intro made
      induction made using List.reverseRecOn with
      | nil => exact fun _ => ⟨rfl, fun _ => rfl⟩
      | append_singleton made c ih =>
        intro part
        have before := ih ((List.prefix_append made [c]).trans part)
        rw [logged_append]
        apply (before.next c (valid made c part) (readable made c part) _).1
        rw [logged_store]
        exact spared made c part
    constructor
    · intro made part
      rw [(sound made part).reopened]
      split_ifs with now
      · exact (sound made part).current now
      · rfl
    · intro made c part
      rw [logged_append]
      have before := sound made ((List.prefix_append made [c]).trans part)
      apply (before.next c (valid made c part) (readable made c part) _).2
      rw [logged_store]
      exact spared made c part

/-- `dump(2)` of facts that need no escapes. -/
def plainDump : Json → Bytes
  | .obj [(_, .arr [])] => ascii "\x7b\n  \"facts\": []\n\x7d"
  | .obj [(_, .arr (.str first :: rest))] =>
      ascii "\x7b\n  \"facts\": [\n    \"" ++ first ++
        rest.flatMap (fun
          | .str s => ascii "\",\n    \"" ++ s
          | _ => []) ++
        ascii "\"\n  ]\n\x7d"
  | _ => []

def tea : Bytes := ascii "tea"

def jam : Bytes := ascii "jam"

def plain : Codec where
  parser := .table [(plainDump (document []), document []), (plainDump (document [tea]), document [tea]),
    (plainDump (document [tea, jam]), document [tea, jam])] (by simp [document_dumpable, tea, jam])
  dump := plainDump

theorem plain_faithful {facts : List Bytes} (listed : facts ∈ [[], [tea], [tea, jam]]) :
    Faithful plain facts := by
  have cuts : ∀ facts ∈ [[], [tea], [tea, jam]], ∀ kept < (plainDump (document facts)).length,
      (plain.parser.parse ((plainDump (document facts)).take kept)).isNone := by decide
  constructor
  · simp only [List.mem_cons, List.not_mem_nil, or_false] at listed
    obtain rfl | rfl | rfl := listed <;> rfl
  · intro kept short
    exact Option.isNone_iff_eq_none.1 (cuts facts listed kept short)

def fullDisk : Setting := ⟨plain, ofBytes (ascii "memory.json"), fun save => if save =
    1 then .writing 0 else .none⟩

def teaAndJam : List Call := [.add tea, .add jam]

theorem teaAndJam_faithful : ∀ made, made <+: teaAndJam → Faithful plain (remembered plain none made) := by
  intro made part
  apply plain_faithful
  have cases' : made ∈ teaAndJam.inits := (List.mem_inits _ _).2 part
  simp only [teaAndJam, List.inits, List.map_cons, List.map_nil, List.mem_cons, List.not_mem_nil,
    or_false] at cases'
  obtain rfl | rfl | rfl := cases' <;> decide

theorem durable_iff_fullDisk :
    Durable fullDisk none teaAndJam ↔ ∀ made c, made ++ [c] <+: teaAndJam →
      Tears fullDisk (reached fullDisk none made) c → (logged fullDisk none made).stored = [] :=
  durable_iff fullDisk none teaAndJam (by decide) teaAndJam_faithful

/-- The first fact was stored, and is gone. -/
theorem fullDisk_loses : (∀ c ∈ teaAndJam, Valid (text c)) ∧
    (∀ made, made <+: teaAndJam → Faithful plain (remembered plain none made)) ∧
    ¬ Durable fullDisk none teaAndJam := by
  refine ⟨by decide, teaAndJam_faithful, ?_⟩
  rintro ⟨durable, -⟩
  have found := durable teaAndJam (List.prefix_refl _)
  have empty : (logged fullDisk none teaAndJam).reopened fullDisk = [] := by rfl
  have failed : (logged fullDisk none teaAndJam).current = false := by decide
  have stored : (logged fullDisk none teaAndJam).stored = [tea] := by decide
  rw [empty, failed, if_neg Bool.false_ne_true, stored] at found
  cases found

end CppCoder.Durability
