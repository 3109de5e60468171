import CppCoder.EngineLoop
import CppCoder.JsonUtil
import CppCoder.OllamaClient
import Mathlib.Data.List.Sort

/-! From a question to the first task: keywords, by the model or from the words themselves, and the
files that match them. -/

namespace CppCoder.Seeding
open Support Utf8 JsonValue Program CppCoder.Types CodebaseScanner Session OllamaClient JsonUtil EngineLoop

def stopwords : List Bytes :=
  [ascii "the", ascii "a", ascii "an", ascii "is", ascii "are", ascii "was", ascii "were", ascii "does",
    ascii "do", ascii "did", ascii "how", ascii "what", ascii "why", ascii "when", ascii "where",
    ascii "which", ascii "who", ascii "this", ascii "that", ascii "for", ascii "and", ascii "or",
    ascii "to", ascii "of", ascii "in", ascii "on", ascii "with", ascii "it", ascii "can", ascii "i"]

def isWordByte (c : UInt8) : Bool :=
  (48 ≤ c && c ≤ 57) || (65 ≤ c && c ≤ 90) || (97 ≤ c && c ≤ 122) || c = 95

def splitWords : Bytes → Bytes → List Bytes
  | current, [] => if current = [] then [] else [current]
  | current, c :: rest =>
      if isWordByte c then splitWords (current ++ [c]) rest
      else if current = [] then splitWords [] rest
      else current :: splitWords [] rest

def takeKeywords (maxCount : Nat) : List Bytes → List Bytes → List Bytes
  | keywords, [] => keywords
  | keywords, w :: rest =>
      let lower := w.map toLower
      if lower.length < 3 ∨ lower ∈ stopwords then takeKeywords maxCount keywords rest
      else if maxCount ≤ (keywords ++ [w]).length then keywords ++ [w]
      else takeKeywords maxCount (keywords ++ [w]) rest

def fallbackKeywords (question : Bytes) (maxCount : Nat) : List Bytes :=
  takeKeywords maxCount [] (splitWords [] question)

theorem isWordByte_small {c : UInt8} (word : isWordByte c = true) : c < 0x80 := by
  unfold isWordByte at word
  simp only [Bool.or_eq_true, Bool.and_eq_true, decide_eq_true_eq, UInt8.le_iff_toNat_le, ←
    UInt8.toNat_inj] at word
  rw [UInt8.lt_iff_toNat_lt]
  simp only [UInt8.reduceToNat] at word ⊢
  omega

theorem valid_splitWords {current : Bytes} (small : ∀ b ∈ current, b < 0x80) (text : Bytes) :
    ∀ word ∈ splitWords current text, Valid word := by
  induction text generalizing current with
  | nil =>
    unfold splitWords
    split_ifs
    · exact fun _ none => absurd none List.not_mem_nil
    · simpa using valid_of_ascii small
  | cons c rest ih =>
    unfold splitWords
    split_ifs with word
    · exact ih (List.forall_mem_append.2 ⟨small, by simpa using isWordByte_small word⟩)
    · exact ih (fun _ none => absurd none List.not_mem_nil)
    · exact List.forall_mem_cons.2 ⟨valid_of_ascii small, ih fun _ none => absurd none List.not_mem_nil⟩

theorem takeKeywords_subset (maxCount : Nat) (keywords words : List Bytes) :
    ∀ k ∈ takeKeywords maxCount keywords words, k ∈ keywords ∨ k ∈ words := by
  induction words generalizing keywords with
  | nil => exact fun _ member => .inl member
  | cons w rest ih =>
    have more : ∀ k, k ∈ keywords ++ [w] → k ∈ keywords ∨ k ∈ w :: rest := by
      intro k member
      rcases List.mem_append.1 member with old | new
      · exact .inl old
      · exact .inr (List.mem_singleton.1 new ▸ List.mem_cons_self)
    unfold takeKeywords
    dsimp only
    split_ifs
    · exact fun k member => (ih keywords k member).imp id (List.mem_cons_of_mem _)
    · exact fun k member => more k member
    · exact fun k member => (ih _ k member).elim (more k) fun later => .inr (List.mem_cons_of_mem _ later)

theorem valid_fallbackKeywords (text : Bytes) (maxCount : Nat) :
    ∀ k ∈ fallbackKeywords text maxCount, Valid k := by
  intro k member
  apply valid_splitWords (fun _ none => absurd none List.not_mem_nil) text k
  exact (takeKeywords_subset maxCount [] _ k member).resolve_left List.not_mem_nil

def readKeywords (maxCount : Nat) : List Bytes → List Json → List Bytes
  | keywords, [] => keywords
  | keywords, k :: rest =>
      let keywords := match k with
        | .str s => keywords ++ [s]
        | _ => keywords
      if maxCount ≤ keywords.length then keywords else readKeywords maxCount keywords rest

theorem valid_readKeywords (maxCount : Nat) {keywords : List Bytes} {items : List Json}
    (before : ∀ k ∈ keywords, Valid k) (clean : ∀ item ∈ items, item.dumpable = true) :
    ∀ k ∈ readKeywords maxCount keywords items, Valid k := by
  induction items generalizing keywords with
  | nil => exact before
  | cons item rest ih =>
    obtain ⟨first, later⟩ := List.forall_mem_cons.1 clean
    unfold readKeywords
    dsimp only
    have now : ∀ k ∈ (match item with
        | .str s => keywords ++ [s]
        | _ => keywords), Valid k := by
      cases item with
      | str s => exact List.forall_mem_append.2 ⟨before, by simpa using first⟩
      | _ => exact before
    split_ifs
    · exact now
    · exact ih now later

def keywordsOf (parser : Parser) (maxCount : Nat) (response : Bytes) : List Bytes :=
  let arrStr := extractJsonArray response
  if arrStr = [] then []
  else match parser.parse arrStr with
    | none => []
    | some parsed => readKeywords maxCount [] parsed.items

theorem valid_keywordsOf (parser : Parser) (maxCount : Nat) (response : Bytes) :
    ∀ k ∈ keywordsOf parser maxCount response, Valid k := by
  have none : ∀ k ∈ ([] : List Bytes), Valid k := fun _ absent => absurd absent List.not_mem_nil
  unfold keywordsOf
  dsimp only
  split_ifs
  · exact none
  · cases parsing : parser.parse (extractJsonArray response) with
    | none => exact none
    | some parsed =>
      exact valid_readKeywords maxCount none (dumpable_items (parser.dumpable _ _ parsing))

def extractKeywords (env : Environment) (client : OllamaConfig) (maxCount : Nat) (prompt text : Bytes) :
    Prog (List Bytes) := do
  match ← generate env client prompt [] with
  | none => return fallbackKeywords text maxCount
  | some response =>
      let keywords := keywordsOf env.parser maxCount response
      return if keywords = [] then fallbackKeywords text maxCount else keywords

def extracted (parser : Parser) (maxCount : Nat) (text : Bytes) (reply : HttpOutcome) : List Bytes :=
  match responseText parser reply with
  | none => fallbackKeywords text maxCount
  | some response =>
      if keywordsOf parser maxCount response = [] then fallbackKeywords text maxCount
      else keywordsOf parser maxCount response

theorem extractKeywords_runs (env : Environment) (client : OllamaConfig) (maxCount : Nat)
    (prompt text : Bytes) (w : World) :
    Runs (extractKeywords env client maxCount prompt text) w
      (fun keywords w' => (requestBody client prompt []).dumpable = true ∧
        keywords = extracted env.parser maxCount text (env.http w.calls) ∧
        (∀ k ∈ keywords, Valid k) ∧ Adds w [] w' ∧ w'.calls = w.calls + 1)
      (fun e w' => e = .type ∧ ¬ (requestBody client prompt []).dumpable = true ∧ Adds w [] w') := by
  unfold extractKeywords extracted
  refine Runs.bind (runs_generate (fun dumps => ?_) fun dirty => ⟨rfl, dirty, .refl w⟩)
  have still : Adds w [] { w with calls := w.calls + 1 } := ⟨by simp, rfl, rfl⟩
  cases responseText env.parser (env.http w.calls) with
  | none => exact Runs.pure ⟨dumps, rfl, valid_fallbackKeywords text maxCount, still, rfl⟩
  | some response =>
    refine Runs.pure ⟨dumps, rfl, ?_, still, rfl⟩
    split_ifs
    · exact valid_fallbackKeywords text maxCount
    · exact valid_keywordsOf env.parser maxCount response

/-- `std::unique` on a sorted list. -/
def unique : List Bytes → List Bytes
  | [] => []
  | [a] => [a]
  | a :: b :: rest => if a = b then unique (b :: rest) else a :: unique (b :: rest)

theorem unique_sublist (areas : List Bytes) : (unique areas).Sublist areas := by
  induction areas using unique.induct with
  | case1 => exact .slnil
  | case2 a => exact .refl _
  | case3 a rest ih =>
    rw [unique, if_pos rfl]
    exact ih.cons _
  | case4 a b rest different ih =>
    rw [unique, if_neg different]
    exact ih.cons_cons _

theorem unique_nodup {areas : List Bytes} (sorted : areas.Pairwise (· ≤ ·)) : (unique areas).Nodup := by
  induction areas using unique.induct with
  | case1 => exact .nil
  | case2 a => exact List.nodup_singleton a
  | case3 a rest ih =>
    rw [unique, if_pos rfl]
    exact ih (List.pairwise_cons.1 sorted).2
  | case4 a b rest different ih =>
    rw [unique, if_neg different]
    obtain ⟨first, later⟩ := List.pairwise_cons.1 sorted
    refine List.nodup_cons.2 ⟨fun member => different ?_, ih later⟩
    -- what comes after `b` is no smaller than it, and `a` is no larger
    apply List.le_antisymm (first b List.mem_cons_self)
    rcases List.mem_cons.1 ((unique_sublist _).subset member) with same | further
    · exact same ▸ List.le_refl _
    · exact (List.pairwise_cons.1 later).1 a further

def candidateAreas (scanner : Scanner) (fs : Support.Disk.FileSystem) (keywords : List Bytes) :
    List Bytes :=
  let matched := keywords.flatMap fun kw => scanner.findFilesMatchingKeyword fs kw 10
  (unique (matched.insertionSort (· ≤ ·))).take 25

theorem candidateAreas_nodup (scanner : Scanner) (fs : Support.Disk.FileSystem) (keywords : List Bytes) :
    (candidateAreas scanner fs keywords).Nodup :=
  (unique_nodup (List.pairwise_insertionSort _ _)).sublist (List.take_sublist _ _)

def seedInitialTasks (scanner : Scanner) (fs : Support.Disk.FileSystem) (id successCriteria : String)
    (goal : Bytes) (keywords : List Bytes) : List Task :=
  let areas := candidateAreas scanner fs keywords
  if areas = [] then []
  else [{ id := ascii id
          targetArea := ascii "(keyword probe: " ++ decimal areas.length ++ ascii " files)"
          researchGoal := goal
          successCriteria := ascii successCriteria
          repeatable := true
          repeatTargets := areas }]

def queueSeeds (tasks : List Task) : Prog TaskQueue.Queue :=
  tasks.foldlM (fun queue t => do
    let (accepted, queue) := queue.push t
    record (.pushed t accepted)
    emit (taskQueued t)
    return queue) {}

theorem queueSeeds_rule {seed : Task} {w : World} {done : TaskQueue.Queue → World → Prop}
    {failed : Exn → World → Prop}
    (dirty : ¬ (taskQueued seed).dumpable = true →
      failed .type { w with trace := w.trace ++ [.pushed seed true] })
    (queued : done { queue := [seed], visited := ∅, queuedAreas := {seed.targetArea} }
      { w with trace := w.trace ++ [.pushed seed true], events := w.events ++ [taskQueued seed] }) :
    Runs (queueSeeds [seed]) w done failed := by
  have taken : (({} : TaskQueue.Queue).push seed) =
      (true, { queue := [seed], visited := ∅, queuedAreas := {seed.targetArea} }) := by
    rw [TaskQueue.push_eq]
    simp
  unfold queueSeeds
  rw [List.foldlM_cons]
  apply Runs.bind
  rw [taken]
  exact Runs.bind (runs_record (Runs.bind (runs_emit (fun _ => Runs.pure (Runs.pure queued)) dirty)))

end CppCoder.Seeding
