import CppCoder.Seeding
import CppCoder.Support.MaximalRuns

/-! The keywords that are read off a question without the model, beside what they stand for: the first of its
words that qualify, as many as are allowed. -/

namespace CppCoder.FallbackKeywords
open Support Utf8 MaximalRuns CodebaseScanner Seeding

/-- Words of three letters or more that in lower case are not stopwords. -/
def qualifies (word : Bytes) : Bool := decide (3 ≤ word.length) && !stopwords.contains (word.map toLower)

def candidates (question : Bytes) : List Bytes := (runs isWordByte question).filter qualifies

def reference (question : Bytes) (maxCount : Nat) : List Bytes := (candidates question).take maxCount

/-- The word that is being read goes on as long as the text does, and then come the runs behind it. -/
theorem splitWords_runsBehind {before : Bytes} (apart : before.getLast?.any isWordByte = false)
    {current : Bytes} (inside : ∀ c ∈ current, isWordByte c = true) (text : Bytes) :
    splitWords current text = (if current = [] then [] else [current ++ text.takeWhile isWordByte]) ++
      runsBehind isWordByte (before ++ current) text := by
  induction text generalizing before current with
  | nil => simp [splitWords, runsBehind]
  | cons c rest ih =>
    unfold splitWords
    rw [runsBehind_cons]
    by_cases word : isWordByte c = true
    · have more : ∀ b ∈ current ++ [c], isWordByte b = true :=
        List.forall_mem_append.2 ⟨inside, by simpa using word⟩
      rw [if_pos word, ih apart more, ← List.append_assoc before, List.takeWhile_cons_of_pos word]
      by_cases starts : current = []
      · subst starts
        simp [word, apart]
      · have within : (before ++ current).getLast?.any isWordByte = true := by
          rw [List.getLast?_append_of_ne_nil _ starts, List.getLast?_eq_some_getLast starts]
          exact inside _ (List.getLast_mem starts)
        rw [if_neg (List.append_ne_nil_of_right_ne_nil _ (List.cons_ne_nil _ _)), if_neg starts, within]
        simp
    · have behind : (before ++ current ++ [c]).getLast?.any isWordByte = false := by
        simpa using word
      have none : ∀ b ∈ ([] : Bytes), isWordByte b = true := fun b absent => absurd absent List.not_mem_nil
      have later := ih behind none
      rw [if_pos rfl, List.nil_append, List.append_nil] at later
      rw [if_neg word, later, List.takeWhile_cons_of_neg word]
      by_cases starts : current = [] <;> simp [starts, word]

theorem splitWords_runs (text : Bytes) : splitWords [] text = runs isWordByte text := by
  have none : ∀ c ∈ ([] : Bytes), isWordByte c = true := fun c absent => absurd absent List.not_mem_nil
  have whole := @splitWords_runsBehind [] rfl [] none text
  rwa [if_pos rfl, List.nil_append, List.append_nil] at whole

/-- As the count is tested after a word is taken, one word is taken even where none is allowed. -/
theorem takeKeywords_eq (maxCount : Nat) (words : List Bytes) : ∀ keywords : List Bytes,
    takeKeywords maxCount keywords words =
      keywords ++ (words.filter qualifies).take (max (maxCount - keywords.length) 1) := by
  induction words with
  | nil => simp [takeKeywords]
  | cons w rest ih =>
    intro keywords
    have refused : (w.map toLower).length < 3 ∨ w.map toLower ∈ stopwords ↔ ¬ qualifies w = true := by
      simp [qualifies, or_iff_not_imp_left]
    unfold takeKeywords
    dsimp only
    by_cases taken : qualifies w = true
    · rw [if_neg (fun out => refused.1 out taken), List.filter_cons_of_pos taken]
      split_ifs with full
      · rw [List.length_append, List.length_singleton] at full
        have one : max (maxCount - keywords.length) 1 = 1 := by omega
        rw [one, List.take_succ_cons, List.take_zero]
      · rw [List.length_append, List.length_singleton] at full
        have more : max (maxCount - keywords.length) 1 =
            max (maxCount - (keywords ++ [w]).length) 1 + 1 := by
          rw [List.length_append, List.length_singleton]
          omega
        rw [ih, more, List.take_succ_cons, List.append_assoc, List.singleton_append]
    · rw [if_pos (refused.2 taken), List.filter_cons_of_neg taken, ih]

theorem fallbackKeywords_eq (question : Bytes) (maxCount : Nat) :
    fallbackKeywords question maxCount = (candidates question).take (max maxCount 1) := by
  unfold fallbackKeywords candidates
  rw [takeKeywords_eq, splitWords_runs, List.nil_append, List.length_nil, Nat.sub_zero]

/-- The keywords are the ones that are meant unless none is allowed and the question has one. -/
theorem fallbackKeywords_eq_reference_iff (question : Bytes) (maxCount : Nat) :
    fallbackKeywords question maxCount = reference question maxCount ↔
      0 < maxCount ∨ ∀ before run behind, question = before ++ run ++ behind →
        Maximal isWordByte before run behind → qualifies run = false := by
  rw [fallbackKeywords_eq]
  unfold reference
  have nothing : candidates question = [] ↔ ∀ before run behind, question = before ++ run ++ behind →
      Maximal isWordByte before run behind → qualifies run = false := by
    unfold candidates
    rw [List.filter_eq_nil_iff]
    constructor
    · intro none before run behind split maximal
      exact Bool.eq_false_iff.2 (none run (mem_runs.2 ⟨before, behind, split, maximal⟩))
    · intro none run there
      obtain ⟨before, behind, split, maximal⟩ := mem_runs.1 there
      exact Bool.eq_false_iff.1 (none before run behind split maximal)
  rw [← nothing]
  constructor
  · intro same
    by_contra other
    push Not at other
    obtain ⟨zero, some⟩ := other
    have zero : maxCount = 0 := Nat.le_zero.1 zero
    subst zero
    rw [List.take_zero, List.take_eq_nil_iff] at same
    exact same.elim (by decide) some
  · intro fine
    rcases fine with positive | none
    · rw [Nat.max_eq_left positive]
    · rw [none, List.take_nil, List.take_nil]

/-- One keyword where none is allowed. -/
theorem fallbackKeywords_none_allowed :
    fallbackKeywords (ascii "How does the cache work?") 0 = [ascii "cache"] ∧
      fallbackKeywords (ascii "How does the cache work?") 0 ≠
        reference (ascii "How does the cache work?") 0 := by
  constructor <;> decide

end CppCoder.FallbackKeywords
