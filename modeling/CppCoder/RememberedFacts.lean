import CppCoder.MemoryStore

/-! The list of facts as a set of different texts: which files it starts from, what every call keeps of
it, and when a listed fact can be removed. -/

namespace CppCoder.RememberedFacts
open Support Utf8 Paths JsonValue Program MemoryStore

structure Listed (facts : List Bytes) : Prop where
  nonempty : ∀ f ∈ facts, f ≠ []
  trimmed : ∀ f ∈ facts, Trimmed f
  distinct : facts.Pairwise fun f g => lowered f ≠ lowered g

theorem Listed.nil : Listed [] := ⟨by simp, by simp, List.Pairwise.nil⟩

theorem Listed.sublist {facts fewer : List Bytes} (listed : Listed facts) (sub : fewer.Sublist facts) :
    Listed fewer :=
  ⟨fun f member => listed.nonempty f (sub.subset member),
    fun f member => listed.trimmed f (sub.subset member), listed.distinct.sublist sub⟩

/-- Adding keeps the list: what is added is trimmed, and no listed text is the same in small letters. -/
theorem listed_changed {facts : List Bytes} (listed : Listed facts) (made : Call) :
    Listed (changed facts made) := by
  cases made with
  | add fact =>
    simp only [changed]
    split_ifs with refused
    · exact listed
    · have some : trim fact ≠ [] := fun none => refused (.inl none)
      have unknown : ∀ f ∈ facts, lowered f ≠ lowered (trim fact) := by
        intro f member same
        exact refused (.inr (List.any_eq_true.2 ⟨f, member, by simpa using same⟩))
      constructor
      · intro f member
        obtain old | new := List.mem_append.1 member
        · exact listed.nonempty f old
        · exact List.mem_singleton.1 new ▸ some
      · intro f member
        obtain old | new := List.mem_append.1 member
        · exact listed.trimmed f old
        · exact List.mem_singleton.1 new ▸ trimmed_trim fact
      · apply List.pairwise_append.2
        refine ⟨listed.distinct, List.pairwise_singleton _ _, fun f old g new => ?_⟩
        rw [List.mem_singleton.1 new]
        exact unknown f old
  | remove fact =>
    simp only [changed]
    split_ifs
    · exact listed
    · exact listed.sublist List.eraseP_sublist

theorem listed_calls {facts : List Bytes} (listed : Listed facts) (calls : List Call) :
    Listed (calls.foldl changed facts) := by
  induction calls generalizing facts with
  | nil => exact listed
  | cons made rest ih => exact ih (listed_changed listed made)

/-- If `Load` accepts the file, the texts in it make a list. -/
def Normal (parser : Parser) (file : Option Bytes) : Prop :=
  ∀ parsed entries, file.bind parser.parse = some parsed →
    parsed.valueJson "facts" (.arr []) = .ok entries → (∀ entry ∈ entries.items, Readable entry) →
    Listed (entries.items.filterMap entryText)

theorem listed_load (parser : Parser) (file : Option Bytes) :
    Listed (load parser file) ↔ Normal parser file := by
  cases content : file.bind parser.parse with
  | none =>
    have empty : load parser file = [] := by simp only [load, content]
    have vacuous : Normal parser file := by
      intro parsed entries found
      simp [content] at found
    exact ⟨fun _ => vacuous, fun _ => empty ▸ Listed.nil⟩
  | some parsed =>
    cases facts : parsed.valueJson "facts" (.arr []) with
    | error e =>
      have empty : load parser file = [] := by simp only [load, content, readDocument, facts]
      have vacuous : Normal parser file := by
        intro other entries found listed
        rw [content] at found
        rw [← Option.some.inj found, facts] at listed
        cases listed
      exact ⟨fun _ => vacuous, fun _ => empty ▸ Listed.nil⟩
    | ok entries =>
      have normal : Normal parser file ↔
          ((∀ entry ∈ entries.items, Readable entry) → Listed (entries.items.filterMap entryText)) := by
        constructor
        · intro all
          exact all parsed entries content facts
        · intro holds other listed found loaded
          rw [content] at found
          rw [← Option.some.inj found, facts] at loaded
          exact Except.ok.inj loaded ▸ holds
      rw [normal]
      by_cases readable : ∀ entry ∈ entries.items, Readable entry
      · have texts : load parser file = entries.items.filterMap entryText := by
          simp only [load, content, readDocument, facts, readFacts_eq readable, List.nil_append]
        rw [texts]
        exact ⟨fun listed _ => listed, fun holds => holds readable⟩
      · have unreadable : ∃ entry ∈ entries.items, ¬ Readable entry := by simpa using readable
        obtain ⟨e, thrown⟩ := readFacts_throws unreadable []
        have empty : load parser file = [] := by simp only [load, content, readDocument, facts, thrown]
        rw [empty]
        exact ⟨fun _ all => absurd all readable, fun _ => Listed.nil⟩

/-! ### Removing -/

/-- Removing a listed fact returns true and takes this entry out of the list, no other. -/
def Removable (setting : Setting) (store : Store) : Prop :=
  ∀ before f after, store.facts = before ++ f :: after →
    ∃ left, removeFact setting f store = .ok true left ∧ left.facts = before ++ after

/-- What is left of the list without one entry can be written, whichever entry it is. -/
def Savable (facts : List Bytes) : Prop := facts.length ≤ 1 ∨ ∀ f ∈ facts, Valid f

theorem eraseP_listed {before after : List Bytes} {f : Bytes} (listed : Listed (before ++ f :: after)) :
    (before ++ f :: after).eraseP (fun existing => lowered existing == lowered f) = before ++ after := by
  have differ : ∀ g ∈ before, ¬ (lowered g == lowered f) = true := by
    intro g member same
    exact (List.pairwise_append.1 listed.distinct).2.2 g member f List.mem_cons_self (by simpa using same)
  rw [List.eraseP_append_right _ differ, List.eraseP_cons_of_pos (by simp)]

theorem removeFact_listed (setting : Setting) {store : Store} (listed : Listed store.facts)
    {before after : List Bytes} {f : Bytes} (split : store.facts = before ++ f :: after) :
    removeFact setting f store =
      (saveLocked setting >>= fun _ => pure true) { store with facts := before ++ after } := by
  have member : f ∈ store.facts := by simp [split]
  have there : known store.facts (lowered f) = true := List.any_eq_true.2 ⟨f, member, by simp⟩
  rw [removeFact_run, trim_of_trimmed (listed.trimmed f member), if_pos ⟨listed.nonempty f member, there⟩]
  rw [split] at listed
  simp only [split, eraseP_listed listed]

theorem removable_of_savable (setting : Setting) {store : Store} (listed : Listed store.facts)
    (savable : Savable store.facts) : Removable setting store := by
  intro before f after split
  have clean : (document (before ++ after)).dumpable = true := by
    apply (document_dumpable _).2
    intro g member
    obtain short | valid := savable
    · rw [split] at short
      simp only [List.length_append, List.length_cons] at short
      have none : before ++ after = [] := List.length_eq_zero_iff.1 (by rw [List.length_append]; omega)
      simp [none] at member
    · apply valid g
      rw [split]
      obtain left | right := List.mem_append.1 member
      · exact List.mem_append_left _ left
      · exact List.mem_append_right _ (List.mem_cons_of_mem _ right)
  rw [removeFact_listed setting listed split, bind_run, saveLocked_run]
  simp only [clean, if_true]
  split_ifs with refused
  · exact ⟨_, rfl, rfl⟩
  · exact ⟨_, rfl, rfl⟩

theorem savable_of_removable {codec : Codec} {path : Path} {store : Store} (listed : Listed store.facts)
    (removable : Removable ⟨codec, path, fun _ => .none⟩ store) : Savable store.facts := by
  by_contra bad
  obtain ⟨long, some⟩ := not_or.1 bad
  obtain ⟨g, member, invalid⟩ : ∃ g ∈ store.facts, ¬ Valid g := by simpa using some
  -- an entry other than the one that cannot be written
  obtain ⟨before, after, split⟩ := List.append_of_mem member
  have other : ∃ f front back, store.facts = front ++ f :: back ∧ g ∈ front ++ back := by
    cases before with
    | nil =>
      cases after with
      | nil => simp [split] at long
      | cons f rest => exact ⟨f, [g], rest, by simp [split], by simp⟩
    | cons f rest => exact ⟨f, [], rest ++ g :: after, by simp [split], by simp⟩
  obtain ⟨f, front, back, here, left⟩ := other
  obtain ⟨end', returned, -⟩ := removable front f back here
  have dirty : ¬ (document (front ++ back)).dumpable = true := by
    intro clean
    exact invalid ((document_dumpable _).1 clean g left)
  have opens : ¬ Setting.Refuses ⟨codec, path, fun _ => .none⟩ store.saves := by simp [Setting.Refuses]
  rw [removeFact_listed _ listed here, bind_run, saveLocked_run, if_neg opens, if_neg dirty] at returned
  cases returned

/-- Whatever the saves meet: after every part of the calls the facts are a list of different texts, and
each of them can be removed. -/
def Represents (codec : Codec) (path : Path) (file : Option Bytes) (calls : List Call) : Prop :=
  ∀ faults made, made <+: calls →
    Listed (reached ⟨codec, path, faults⟩ file made).facts ∧
      Removable ⟨codec, path, faults⟩ (reached ⟨codec, path, faults⟩ file made)

theorem represents_iff (codec : Codec) (path : Path) (file : Option Bytes) (calls : List Call) :
    Represents codec path file calls ↔
      Normal codec.parser file ∧ ∀ made, made <+: calls → Savable (remembered codec file made) := by
  constructor
  · intro holds
    have start : Listed (load codec.parser file) := (holds (fun _ => .none) [] (List.nil_prefix)).1
    refine ⟨(listed_load _ _).1 start, fun made part => ?_⟩
    obtain ⟨listed, removable⟩ := holds (fun _ => .none) made part
    have savable := savable_of_removable listed removable
    rwa [reached_facts] at savable
  · rintro ⟨normal, savable⟩ faults made part
    have facts := reached_facts ⟨codec, path, faults⟩ file made
    have listed : Listed (reached ⟨codec, path, faults⟩ file made).facts := by
      rw [facts]
      exact listed_calls ((listed_load _ _).2 normal) made
    refine ⟨listed, removable_of_savable _ listed ?_⟩
    rw [facts]
    exact savable made part

def handwritten : Bytes := ascii "\x7b\"facts\": [\" a \"]\x7d"

def padded : Codec where
  parser := .table [(handwritten, .obj [(ascii "facts", .arr [.str (ascii " a ")])])] (by simp)
  dump _ := []

/-- The fact is loaded as it stands, and no request to forget it finds it. -/
theorem padded_lost :
    ¬ Represents padded (ofBytes (ascii "memory.json")) (some handwritten) [] := by
  intro holds
  obtain ⟨-, removable⟩ := holds (fun _ => .none) [] List.nil_prefix
  obtain ⟨left, returned, -⟩ := removable [] (ascii " a ") [] rfl
  have unfound : removeFact ⟨padded, ofBytes (ascii "memory.json"), fun _ => .none⟩ (ascii " a ")
      (reached ⟨padded, ofBytes (ascii "memory.json"), fun _ => .none⟩
        (some handwritten) []) =
      .ok false ⟨[ascii " a "], some handwritten, 0⟩ := by rfl
  rw [unfound] at returned
  cases returned

end CppCoder.RememberedFacts
