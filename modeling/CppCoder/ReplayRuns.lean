import CppCoder.ReplayDemo
import CppCoder.ViewerLogs

/-! `replay_demo` on the file of a run: it knows every event and throws on none. -/

namespace CppCoder.ReplayRuns
open Support Utf8 Program JsonValue CppCoder.Types Session ResearchEngine Chronicle
open EngineFrames EventsFile ReplayDemo ViewerLogs

structure ItemAlike (a b : Json) : Prop where
  text : getString a = getString b
  str : ∀ key default, a.valueStr key default = b.valueStr key default

/-- What is looked up is the same, or looks the same. -/
structure Alike (a b : Json) : Prop where
  str : ∀ key default, a.valueStr key default = b.valueStr key default
  bool : ∀ key default, a.valueBool key default = b.valueBool key default
  int : ∀ bits key default, valueInt bits a key default = valueInt bits b key default
  list : ∀ key items, b.valueJson key (.arr []) = .ok (.arr items) →
    ∃ others, a.valueJson key (.arr []) = .ok (.arr others) ∧ List.Forall₂ ItemAlike others items

theorem Alike.refl (a : Json) : Alike a a :=
  ⟨fun _ _ => rfl, fun _ _ => rfl, fun _ _ _ => rfl,
    fun _ items found => ⟨items, found, List.forall₂_same.2 fun _ _ => ⟨rfl, fun _ _ => rfl⟩⟩⟩

variable {a b : Json}

theorem getString_same (same : a.same b = true) : getString a = getString b := by
  cases a <;> cases b <;> simp_all [Json.same, Json.number, getString]

theorem number_same (same : a.same b = true) : a.number = b.number := by
  cases a <;> cases b <;> simp_all [Json.same, Json.number]

theorem arithmetic_number {q : Rat} (numeric : a.number = some q) : arithmetic a = some (q.num.tdiv q.den) := by
  cases a <;> simp_all [arithmetic, Json.number] <;> simp [← numeric]

theorem arithmetic_same (same : a.same b = true) : arithmetic a = arithmetic b := by
  cases numeric : a.number with
  | some q => rw [arithmetic_number numeric, arithmetic_number ((number_same same).symm.trans numeric)]
  | none => cases a <;> cases b <;> simp_all [Json.same, Json.number, arithmetic]

theorem valueInt_same (same : a.same b = true) (bits : Nat) (key : String) (default : Int) :
    valueInt bits a key default = valueInt bits b key default := by
  unfold valueInt
  obtain ⟨one, two⟩ | ⟨found, found', one, two, related⟩ := member_same same key
  · rw [one, two]
  · rw [one, two]
    cases related with
    | none => rfl
    | some alike =>
      dsimp only
      rw [arithmetic_same alike]

theorem Alike.of_same (same : a.same b = true) : Alike a b := by
  refine ⟨valueStr_same same, valueBool_same same, valueInt_same same, fun key items found => ?_⟩
  obtain ⟨others, read, alike⟩ := valueItems_same same found
  exact ⟨others, read, alike.imp fun _ _ each => ⟨getString_same each, valueStr_same each⟩⟩

/-! ### Rendering -/

variable {t : Terminal}

theorem renderEvent_branch {kind : String} {body : Json → Out Unit} {text : Bytes}
    (named : a.valueStr "event" [] = .ok (ascii kind))
    (found : (branches t).find? (fun branch => ascii branch.1 = ascii kind) = some (kind, body))
    (prints : Prints (body a) text) : Prints (renderEvent t a) text := by
  unfold renderEvent
  refine prints_value named ?_
  rw [found]
  exact prints

theorem texts_of_alike {α : Type} {items : List Json} {listed : List α} {json : α → Json} {text : α → Bytes}
    {body : Json → Out Unit} (alike : List.Forall₂ ItemAlike items (listed.map json))
    (each : ∀ a x, ItemAlike a (json x) → Prints (body a) (text x)) :
    List.Forall₂ (fun item text => Prints (body item) text) items (listed.map text) := by
  rw [List.forall₂_map_right_iff] at alike ⊢
  exact alike.imp each

theorem renderKeyword_prints {word : Bytes} (alike : ItemAlike a (.str word)) :
    Prints (renderKeyword t a) (t.code kBlue ++ (word ++ t.code kReset)) := by
  unfold renderKeyword
  exact (prints_print _).bind (prints_value alike.text ((prints_print _).bind (prints_print _)))

theorem renderWords_prints (words : List Bytes) : ∃ text, ∀ items,
    List.Forall₂ ItemAlike items (words.map .str) → Prints (renderWords t items) text := by
  cases words with
  | nil =>
    refine ⟨[], fun items alike => ?_⟩
    cases alike
    exact prints_nothing
  | cons word rest =>
    apply Exists.intro
    intro items alike
    rw [List.map_cons] at alike
    cases alike with
    | cons first others =>
      exact (renderKeyword_prints first).bind
        (prints_forM (texts_of_alike others fun _ _ each => (prints_print _).bind (renderKeyword_prints each)))

theorem renderKept_prints {task : Task}
    (alike : ItemAlike a (.obj [(ascii "id", .str task.id), (ascii "target_area", .str task.targetArea),
      (ascii "research_goal", .str task.researchGoal)])) :
    Prints (renderKept t a) (t.code kDim ++ ascii "              -> " ++ t.code kReset ++
      (shortLabel task.targetArea ++ ascii "\n")) := by
  unfold renderKept
  exact (prints_print _).bind (prints_value (alike.str _ _) ((prints_print _).bind (prints_print _)))

theorem prints_length {count other : Nat} (same : count = other) : Prints (print (decimal count)) (decimal other) := by
  rw [same]
  exact prints_print _

/-- What is read for the event is printed in one way, without an exception. -/
def Renders (t : Terminal) (b : Json) : Prop := ∃ text, ∀ a, Alike a b → Prints (renderEvent t a) text

theorem emitted_renders (t : Terminal) (emitted : Emitted b) : Renders t b := by
  cases emitted with
  | question asked =>
    apply Exists.intro
    intro a alike
    apply renderEvent_branch (alike.str _ _) rfl
    unfold renderQuestion
    exact (prints_print _).bind (prints_value (alike.str _ _) ((prints_print _).bind (prints_print _)))
  | keywords keywords =>
    obtain ⟨text, words⟩ := renderWords_prints (t := t) keywords
    apply Exists.intro
    intro a alike
    obtain ⟨items, found, each⟩ := alike.list "keywords" _ rfl
    apply renderEvent_branch (alike.str _ _) rfl
    unfold renderKeywords
    exact (prints_print _).bind (prints_value found ((words items each).bind (prints_print _)))
  | queued task =>
    apply Exists.intro
    intro a alike
    apply renderEvent_branch (alike.str _ _) rfl
    unfold renderQueued
    exact (prints_print _).bind (prints_value (alike.str _ _) ((prints_print _).bind ((prints_print _).bind
      (prints_value (alike.str _ _) ((prints_print _).bind (prints_print _))))))
  | started task =>
    apply Exists.intro
    intro a alike
    apply renderEvent_branch (alike.str _ _) rfl
    unfold renderStarted
    exact (prints_print _).bind (prints_value (alike.str _ _) ((prints_print _).bind ((prints_print _).bind
      (prints_value (alike.str _ _) ((prints_print _).bind (prints_print _))))))
  | worker task raw =>
    apply Exists.intro
    intro a alike
    obtain ⟨items, found, each⟩ := alike.list "directions" _ rfl
    apply renderEvent_branch (alike.str _ _) rfl
    have counted : Prints (print (decimal (Json.arr items).items.length)) _ := prints_length each.length_eq
    unfold renderWorker
    exact prints_value (alike.str _ _) ((prints_print _).bind (prints_value (alike.int _ _ _)
      ((prints_print _).bind ((prints_print _).bind (prints_value found (counted.bind (prints_print _)))))))
  | judge task raw finding =>
    apply Exists.intro
    intro a alike
    obtain ⟨items, found, each⟩ := alike.list "kept_directions" _ rfl
    apply renderEvent_branch (alike.str _ _) rfl
    have count : (Json.arr items).items.length = _ := each.length_eq
    unfold renderJudge
    apply prints_value found
    apply prints_value (alike.int _ _ _)
    rw [count]
    exact (prints_print _).bind (prints_forM (texts_of_alike each fun _ _ one => renderKept_prints one))
  | progress task finding =>
    apply Exists.intro
    intro a alike
    apply renderEvent_branch (alike.str _ _) rfl
    unfold renderProgress
    exact (prints_print _).bind (prints_value (alike.str _ _) ((prints_print _).bind (prints_print _)))
  | answer answer =>
    apply Exists.intro
    intro a alike
    apply renderEvent_branch (alike.str _ _) rfl
    unfold renderFound
    exact prints_value (alike.str _ _) (prints_print _)
  | complete result =>
    apply Exists.intro
    intro a alike
    apply renderEvent_branch (alike.str _ _) rfl
    unfold renderComplete
    exact prints_value (alike.bool _ _) ((prints_print _).bind (prints_value (alike.int _ _ _)
      ((prints_print _).bind ((prints_print _).bind (prints_value (alike.int _ _ _) ((prints_print _).bind
        ((prints_print _).bind (prints_value (alike.str _ _) ((prints_print _).bind (prints_print _))))))))))

theorem unknown_renders {kind : String} {fields : List (String × Json)}
    (unknown : (branches t).find? (fun branch => ascii branch.1 = ascii kind) = none) :
    Renders t (event kind fields) := by
  refine ⟨t.code kDim ++ ascii "  (unrecognised event: " ++ ascii kind ++ ascii ")" ++ t.code kReset ++ ascii "\n",
    fun a alike => ?_⟩
  have named : a.valueStr "event" [] = .ok (ascii kind) := alike.str _ _
  unfold renderEvent
  apply prints_value named
  rw [unknown]
  exact prints_print _

theorem edit_renders (t : Terminal) (emitted : EditEmitted b) : Renders t b := by
  cases emitted with
  | task asked => exact unknown_renders rfl
  | keywords keywords => exact emitted_renders t (.keywords keywords)
  | queued task => exact emitted_renders t (.queued task)
  | started task => exact emitted_renders t (.started task)
  | result task finding => exact unknown_renders rfl
  | applied task path => exact unknown_renders rfl
  | rejected reason task path => exact unknown_renders rfl
  | proposed task edit => exact unknown_renders rfl
  | complete result =>
    apply Exists.intro
    intro a alike
    apply renderEvent_branch (alike.str _ _) rfl
    unfold renderComplete
    exact prints_value (alike.bool _ _) ((prints_print _).bind (prints_value (alike.int _ _ _)
      ((prints_print _).bind ((prints_print _).bind (prints_value (alike.int _ _ _) ((prints_print _).bind
        ((prints_print _).bind (prints_value (alike.str _ _) ((prints_print _).bind (prints_print _))))))))))

/-- The program has a branch for the event. -/
def Known (e : Json) : Prop := ∃ kind ∈ (branches t).map Prod.fst, e.valueStr "event" [] = .ok (ascii kind)

theorem emitted_known (emitted : Emitted b) : Known (t := t) b := by
  have listed : ∀ kind ∈ (branches t).map Prod.fst, ∀ fields, Known (t := t) (event kind fields) :=
    fun kind member fields => ⟨kind, member, rfl⟩
  cases emitted with
  | question asked => exact listed "question" (by simp [branches]) _
  | keywords keywords => exact listed "keywords_extracted" (by simp [branches]) _
  | queued task => exact listed "task_queued" (by simp [branches]) _
  | started task => exact listed "task_started" (by simp [branches]) _
  | worker task raw => exact listed "worker_result" (by simp [branches]) _
  | judge task raw finding => exact listed "judge_result" (by simp [branches]) _
  | progress task finding => exact listed "answer_progress" (by simp [branches]) _
  | answer answer => exact listed "answer_found" (by simp [branches]) _
  | complete result => exact listed "complete" (by simp [branches]) _

/-- Each line is what the program prints for the event beside it. -/
def Lines (t : Terminal) (events : List Json) (lines : List Bytes) : Prop :=
  List.Forall₂ (fun e line => Prints (renderEvent t e) line) events lines

theorem play_prints (step : Bool) {events : List Json} {lines : List Bytes} (each : Lines t events lines) :
    Prints (play t step events) ((prompt t step).intercalate lines) := by
  induction each with
  | nil => exact prints_nothing
  | @cons e line rest others first each ih =>
    cases each with
    | nil =>
      rw [List.intercalate_singleton]
      exact first
    | cons second each =>
      rw [List.intercalate_cons_cons, List.append_assoc]
      exact first.bind ((prints_print _).bind ih)

theorem same_prints {log events : List Json} (same : Same log events) (renders : ∀ e ∈ events, Renders t e) :
    ∃ lines, Lines t events lines ∧ Lines t log lines := by
  induction same with
  | nil => exact ⟨[], .nil, .nil⟩
  | @cons a b log events first _ ih =>
    obtain ⟨line, rendered⟩ := renders b List.mem_cons_self
    obtain ⟨lines, one, two⟩ := ih fun e member => renders e (List.mem_cons_of_mem _ member)
    exact ⟨line :: lines, .cons (rendered b (.refl b)) one, .cons (rendered a (.of_same first)) two⟩

theorem replay_prints {parser : Parser} {file : Bytes} {lines : List Bytes} (path : Bytes) (step : Bool)
    (each : Lines t (loadEvents parser file) lines) :
    replay t parser path step (some file) =
      if (loadEvents parser file).length = 0 then .code 1 []
      else .code 0 (header t path step (loadEvents parser file).length ++
        (prompt t step).intercalate lines) := by
  unfold replay
  dsimp only
  by_cases none : (loadEvents parser file).length = 0
  · rw [if_pos none, if_pos (List.isEmpty_iff_length_eq_zero.2 none)]
  · rw [if_neg none, if_neg fun empty => none (List.isEmpty_iff_length_eq_zero.1 empty), play_prints step each]

/-- What the program does with a file that was cut off after so many bytes: it prints what the events print
that are there whole, with the prompt between them in step mode. -/
def Replayed (t : Terminal) (parser : Parser) (dump : Json → Bytes) (events : List Json) (path : Bytes)
    (step : Bool) (n : Nat) : Prop :=
  ∃ m lines, m ≤ events.length ∧ (eventsFile dump (events.take m)).length ≤ n + 1 ∧
    (∀ j ≤ events.length, (eventsFile dump (events.take j)).length ≤ n → j ≤ m) ∧
    Lines t (events.take m) lines ∧
    replay t parser path step (some ((eventsFile dump events).take n)) =
      if m = 0 then .code 1 [] else .code 0 (header t path step m ++ (prompt t step).intercalate lines)

theorem file_replayed {parser : Parser} {dump : Json → Bytes} {events : List Json}
    (each : ∀ e ∈ events, Dumped parser dump e) (objects : ∀ e ∈ events, ∃ fields, e = .obj fields)
    (renders : ∀ e ∈ events, Renders t e) (path : Bytes) (step : Bool) (n : Nat) :
    Replayed t parser dump events path step n := by
  obtain ⟨m, -, same, bound, most⟩ := file_read each objects n
  obtain ⟨lines, one, two⟩ := same_prints (t := t) same fun e member => renders e (List.mem_of_mem_take member)
  have count := same.length_eq
  rw [List.length_take] at count
  refine ⟨min m events.length, lines, Nat.min_le_right _ _, ?_, ?_, ?_, ?_⟩
  · rwa [← List.take_eq_take_min]
  · intro j short fits
    exact Nat.le_min.2 ⟨most j short fits, short⟩
  · rwa [← List.take_eq_take_min]
  · rw [replay_prints path step two, count]

/-- However much there is of the file of a run, the program prints what the events of the run print that are
there whole, has a branch for each, and throws nothing. -/
theorem replays_run {engine : Engine} {env : Environment} {w w' : World} {asked : Bytes} {result : ResearchResult}
    {dump : Json → Bytes} (returned : research engine env asked { w with events := [] } = .ok result w')
    (each : ∀ e ∈ w'.events, Dumped env.parser dump e) (path : Bytes) (step : Bool) (n : Nat) :
    (∀ e ∈ w'.events, Known (t := t) e) ∧ Replayed t env.parser dump w'.events path step n := by
  have emitted := research_emits engine env asked w
  rw [returned] at emitted
  refine ⟨fun e member => emitted_known (emitted e member), ?_⟩
  exact file_replayed each (fun e member => (emitted e member).object)
    (fun e member => emitted_renders t (emitted e member)) path step n

/-- The first bytes of the file of a run that answers, in colour and step by step. -/
theorem replays_run_cache : ∃ result w', cacheRun cacheParser = .ok result w' ∧ result.answered = true ∧
    (∀ e ∈ w'.events, Known (t := ⟨true, fun _ => ascii "0"⟩) e) ∧
    Replayed ⟨true, fun _ => ascii "0"⟩ cacheParser compact w'.events (ascii "run.jsonl") true 500 := by
  have ended : answers (cacheRun cacheParser) = true ∧
      (finalState (cacheRun cacheParser)).events.all (checked cacheEntries compact) = true := by
    decide +kernel
  obtain ⟨answered, each⟩ := ended
  cases finished : cacheRun cacheParser with
  | error e w' =>
    rw [finished] at answered
    cases answered
  | ok result w' =>
    rw [finished] at each answered
    have dumped : ∀ e ∈ w'.events, Dumped cacheParser compact e := by
      intro e member
      exact dumped_of_checked (List.all_eq_true.1 each e member)
    exact ⟨result, w', rfl, answered, replays_run finished dumped (ascii "run.jsonl") true 500⟩

end CppCoder.ReplayRuns
