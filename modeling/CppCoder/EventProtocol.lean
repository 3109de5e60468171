import CppCoder.Chronicle

/-! The log of a research run keeps to a protocol: what kind of event comes where, that a task is queued
and started once, and which earlier event each one refers to. -/

namespace CppCoder.EventProtocol
open Support Utf8 JsonValue Program CppCoder.Types Session EngineLoop ResearchEngine Numbering Chronicle

def told (name : String) (e : Json) : Bool := eventName e == ascii name

def idOf (e : Json) : Bytes := stringField "id" e

def integerField (key : String) (e : Json) : Option Int :=
  match e.member key with
  | .ok (some (.integer n)) => some n
  | _ => none

def idsOf (name : String) (events : List Json) : List Bytes := (events.filter (told name)).map idOf

/-- A direction that was queued when the task of an event had been finished. -/
structure Follows (start q : Json) : Prop where
  kind : told "task_queued" q = true
  parent : stringField "parent_id" q = idOf start
  depth : ∃ n, integerField "depth" start = some n ∧ integerField "depth" q = some (n + 1)

def Ensues (start : Json) (after : List Json) : Prop :=
  (∃ progress, after = [progress] ∧ told "answer_progress" progress = true ∧ idOf progress = idOf start) ∨
    ∀ q ∈ after, Follows start q

inductive IsTurn : List Json → Prop
  | turn (start found verdict : Json) (after : List Json) (started : told "task_started" start = true)
      (worker : told "worker_result" found = true) (judge : told "judge_result" verdict = true)
      (same : idOf found = idOf start ∧ idOf verdict = idOf start) (ensues : Ensues start after) :
      IsTurn (start :: found :: verdict :: after)

inductive Shape : List Json → Prop
  | unseeded (question keywords finish : Json) (asked : told "question" question = true)
      (extracted : told "keywords_extracted" keywords = true) (ended : told "complete" finish = true) :
      Shape [question, keywords, finish]
  | seeded (question keywords seed finish : Json) (turns : List (List Json)) (answer : List Json)
      (asked : told "question" question = true) (extracted : told "keywords_extracted" keywords = true)
      (queued : told "task_queued" seed = true) (each : ∀ turn ∈ turns, IsTurn turn)
      (answered : ∀ e ∈ answer, told "answer_found" e = true) (once : answer.length ≤ 1)
      (ended : told "complete" finish = true) :
      Shape (question :: keywords :: seed :: (turns.flatten ++ answer ++ [finish]))

/-- An event about a task that another event has announced. -/
structure Announces (q e : Json) : Prop where
  kind : told "task_queued" q = true
  id : idOf q = idOf e
  area : stringField "target_area" q = stringField "target_area" e
  depth : ∃ n, integerField "depth" q = some n ∧ integerField "depth" e = some n

def Announced (before events : List Json) : Prop :=
  ∀ earlier e later, events = earlier ++ e :: later → told "task_started" e = true →
    ∃ q ∈ before ++ earlier, Announces q e

structure Protocol (events : List Json) : Prop where
  shape : Shape events
  queuedOnce : (idsOf "task_queued" events).Nodup
  startedOnce : (idsOf "task_started" events).Nodup
  announced : Announced [] events
  completedOnce : (idsOf "complete" events).length = 1
  iterations : ∀ e ∈ events, told "complete" e = true →
    integerField "iterations" e = some ((idsOf "task_started" events).length : Int)

theorem told_event (name kind : String) (fields : List (String × Json)) :
    told name (event kind fields) = (ascii kind == ascii name) := by
  unfold told
  rw [eventName_event]

theorem idsOf_append (name : String) (first second : List Json) :
    idsOf name (first ++ second) = idsOf name first ++ idsOf name second := by
  simp [idsOf]

theorem idsOf_none {name : String} {events : List Json} (other : ∀ e ∈ events, told name e = false) :
    idsOf name events = [] := by
  unfold idsOf
  rw [List.filter_eq_nil_iff.2 fun e member => by simp [other e member]]
  rfl

theorem idsOf_all {name : String} {events : List Json} (same : ∀ e ∈ events, told name e = true) :
    idsOf name events = events.map idOf := by
  unfold idsOf
  rw [List.filter_eq_self.2 same]

theorem idsOf_flatMap {α : Type} (name : String) (items : List α) (f : α → List Json) :
    idsOf name (items.flatMap f) = items.flatMap fun item => idsOf name (f item) := by
  induction items with
  | nil => rfl
  | cons item rest ih => rw [List.flatMap_cons, List.flatMap_cons, idsOf_append, ih]

/-! ### One turn -/

variable {parser : Parser} {low high : Nat} {seed : Task} {blocks : List Block}
  {waiting : List Task} {b : Block}

theorem taskQueued_told (name : String) (other : ascii "task_queued" ≠ ascii name) (tasks : List Task) :
    ∀ e ∈ tasks.map taskQueued, told name e = false := by
  intro e member
  obtain ⟨t, -, rfl⟩ := List.mem_map.1 member
  exact (told_event _ _ _).trans (by simpa using other)

theorem idsOf_taskQueued (tasks : List Task) : idsOf "task_queued" (tasks.map taskQueued) =
    tasks.map Task.id := by
  rw [idsOf_all]
  · rw [List.map_map]
    rfl
  · intro e member
    obtain ⟨t, -, rfl⟩ := List.mem_map.1 member
    exact (told_event _ _ _).trans (by decide)

theorem progressEvents_told (name : String) (other : ascii "answer_progress" ≠ ascii name) (task : Task)
    (finding : Finding) : ∀ e ∈ progressEvents task finding, told name e = false := by
  unfold progressEvents
  split_ifs
  · simp only [List.mem_singleton, forall_eq]
    exact (told_event _ _ _).trans (by simpa using other)
  · simp

theorem filter_heads (name : String) (b : Block) :
    [taskStarted b.task, workerResult b.task b.raw, judgeResult b.task b.raw b.finding].filter (told name) =
      (if ascii "task_started" = ascii name then [taskStarted b.task] else []) ++
      (if ascii "worker_result" = ascii name then [workerResult b.task b.raw] else []) ++
      (if ascii "judge_result" = ascii name then [judgeResult b.task b.raw b.finding] else []) := by
  have started : told name (taskStarted b.task) = (ascii "task_started" == ascii name) := told_event _ _ _
  have worker : told name (workerResult b.task b.raw) = (ascii "worker_result" == ascii name) :=
    told_event _ _ _
  have judge : told name (judgeResult b.task b.raw b.finding) =
    (ascii "judge_result" == ascii name) := told_event _ _ _
  simp only [List.filter_cons, List.filter_nil, started, worker, judge, beq_iff_eq]
  split_ifs <;> rfl

theorem idsOf_heads (name : String) (b : Block) :
    idsOf name [taskStarted b.task, workerResult b.task b.raw, judgeResult b.task b.raw b.finding] =
      ((if ascii "task_started" == ascii name then [b.task.id] else []) ++
        (if ascii "worker_result" == ascii name then [b.task.id] else [])) ++
        if ascii "judge_result" == ascii name then [b.task.id] else [] := by
  unfold idsOf
  rw [filter_heads]
  simp only [beq_iff_eq]
  split_ifs <;> rfl

theorem idsOf_events (name : String) (b : Block) : idsOf name b.events =
    idsOf name [taskStarted b.task, workerResult b.task b.raw, judgeResult b.task b.raw b.finding] ++
      idsOf name (progressEvents b.task b.finding) ++ idsOf name (b.queued.map taskQueued) := by
  unfold Block.events
  rw [idsOf_append, idsOf_append]

theorem queued_of_block (b : Block) : idsOf "task_queued" b.events = b.queued.map Task.id := by
  rw [idsOf_events, idsOf_heads, idsOf_taskQueued, idsOf_none (progressEvents_told _ (by decide) _ _)]
  rfl

theorem started_of_block (b : Block) : idsOf "task_started" b.events = [b.task.id] := by
  rw [idsOf_events, idsOf_heads, idsOf_none (taskQueued_told _ (by decide) _),
    idsOf_none (progressEvents_told _ (by decide) _ _)]
  rfl

theorem completed_of_block (b : Block) : idsOf "complete" b.events = [] := by
  rw [idsOf_events, idsOf_heads, idsOf_none (taskQueued_told _ (by decide) _),
    idsOf_none (progressEvents_told _ (by decide) _ _)]
  rfl

theorem uncompleted (b : Block) : ∀ e ∈ b.events, told "complete" e = false := by
  intro e member
  have none := List.filter_eq_nil_iff.1 (List.map_eq_nil_iff.1 (completed_of_block b)) e member
  simpa using none

theorem isTurn_events (turn : Turn parser b) : IsTurn b.events := by
  have heads : b.events = taskStarted b.task :: workerResult b.task b.raw :: judgeResult b.task
    b.raw b.finding ::
      (progressEvents b.task b.finding ++ b.queued.map taskQueued) := by
    simp [Block.events]
  rw [heads]
  refine .turn (taskStarted b.task) (workerResult b.task b.raw) (judgeResult b.task b.raw b.finding) _
    ((told_event _ _ _).trans (by decide)) ((told_event _ _ _).trans (by decide))
    ((told_event _ _ _).trans (by decide)) ⟨rfl, rfl⟩ ?_
  by_cases success : b.finding.outcome = .success
  · left
    refine ⟨event "answer_progress" [("id", .str b.task.id), ("summary", .str b.finding.summary)], ?_,
      (told_event _ _ _).trans (by decide), rfl⟩
    simp [progressEvents, success, turn.none_queued success]
  · right
    intro q member
    have quiet : progressEvents b.task b.finding = [] := if_neg success
    rw [quiet, List.nil_append] at member
    obtain ⟨t, queued, rfl⟩ := List.mem_map.1 member
    obtain ⟨d, -, rfl⟩ := turn.children t queued
    exact ⟨(told_event _ _ _).trans (by decide), rfl, b.task.depth, rfl, rfl⟩

/-- A task that was queued is the seed, or has the name and the area of a direction that was proposed. -/
theorem queued_origin (chronicled : Chronicled parser low seed blocks waiting high) :
    ∀ t ∈ queuedTasks seed blocks, t = seed ∨
      ∃ d ∈ proposed blocks, t.id = d.id ∧ t.targetArea = d.targetArea := by
  intro t member
  rcases List.mem_cons.1 member with rfl | later
  · exact .inl rfl
  · obtain ⟨b, there, queued⟩ := List.mem_flatMap.1 later
    have turn := chronicled.turns b there
    obtain ⟨d, kept, rfl⟩ := turn.children t queued
    obtain ⟨reply, judged⟩ := turn.judged
    rw [judged] at kept
    have raw := (Judge.judged_judgement parser b.raw reply).kept d kept
    exact .inr ⟨d, List.mem_flatMap.2 ⟨b, there, raw⟩, rfl, rfl⟩

theorem queued_ids (root : Root seed) (chronicled : Chronicled parser low seed blocks waiting high) :
    ((queuedTasks seed blocks).map Task.id).Nodup := by
  have distinct := chronicled.areas
  have names := chronicled.numbered.nodup
  apply List.Nodup.map_on ?_ (List.Nodup.of_map _ distinct)
  intro t one t' two same
  have seeded : ∀ d ∈ proposed blocks, seed.id ≠ d.id := by
    intro d member equal
    obtain ⟨n, numbered⟩ := chronicled.numbered.names d member
    exact ne_nameOf _ (by decide) n (root.id.symm.trans (equal.trans numbered))
  have area : t.targetArea = t'.targetArea := by
    rcases queued_origin chronicled t one with rfl | ⟨d, raw, id, area⟩
    · rcases queued_origin chronicled t' two with rfl | ⟨d', raw', id', -⟩
      · rfl
      · exact absurd (same.trans id') (seeded d' raw')
    · rcases queued_origin chronicled t' two with rfl | ⟨d', raw', id', area'⟩
      · exact absurd (same.symm.trans id) (seeded d raw)
      · have equal := List.inj_on_of_nodup_map names raw raw' (id.symm.trans (same.trans id'))
        rw [area, area', equal]
  exact List.inj_on_of_nodup_map distinct one two area

theorem started_ids (root : Root seed) (chronicled : Chronicled parser low seed blocks waiting high) :
    (blocks.map fun b => b.task.id).Nodup := by
  have all := queued_ids root chronicled
  rw [chronicled.fifo, List.map_append, List.map_map] at all
  exact (List.nodup_append.1 all).1

theorem Announced.append {before first second : List Json} (one : Announced before first)
    (two : Announced (before ++ first) second) : Announced before (first ++ second) := by
  intro earlier e later split started
  rcases List.append_eq_append_iff.1 split with ⟨middle, same, rest⟩ | ⟨middle, same, rest⟩
  · obtain ⟨q, member, announces⟩ := two middle e later rest started
    rw [List.append_assoc, ← same] at member
    exact ⟨q, member, announces⟩
  · cases middle with
    | nil =>
      rw [List.append_nil] at same
      obtain ⟨q, member, announces⟩ := two [] e later rest.symm started
      rw [List.append_nil, same] at member
      exact ⟨q, member, announces⟩
    | cons head middle =>
      obtain ⟨rfl, -⟩ := List.cons.inj rest
      exact one earlier e middle same started

theorem announced_quiet (before : List Json) {events : List Json}
    (quiet : ∀ e ∈ events, told "task_started" e = false) :
    Announced before events := by
  intro earlier e later split started
  have member : e ∈ events := by simp [split]
  rw [quiet e member] at started
  cases started

theorem announced_block {before : List Json} (queued : taskQueued b.task ∈ before) :
    Announced before b.events := by
  have single : Announced before [taskStarted b.task] := by
    intro earlier e later split started
    have member : e ∈ [taskStarted b.task] := by simp [split]
    rw [List.mem_singleton.1 member]
    exact ⟨taskQueued b.task, List.mem_append_left _ queued, (told_event _ _ _).trans (by decide),
      rfl, rfl, b.task.depth, rfl, rfl⟩
  have heads : b.events = [taskStarted b.task] ++
    ([workerResult b.task b.raw, judgeResult b.task b.raw b.finding] ++
      progressEvents b.task b.finding ++ b.queued.map taskQueued) := by
    simp [Block.events]
  rw [heads]
  refine single.append (announced_quiet _ ?_)
  refine List.forall_mem_append.2 ⟨List.forall_mem_append.2 ⟨?_, progressEvents_told _ (by decide) _ _⟩,
    taskQueued_told _ (by decide) _⟩
  simp only [List.mem_cons, List.not_mem_nil, or_false, forall_eq_or_imp, forall_eq]
  exact ⟨(told_event _ _ _).trans (by decide), (told_event _ _ _).trans (by decide)⟩

theorem announced_blocks (earlier : ∀ before b after, blocks = before ++ b :: after →
    b.task ∈ queuedTasks seed before)
    (opening : List Json) (done rest : List Block) (split : blocks = done ++ rest) :
    Announced (opening ++ taskQueued seed :: done.flatMap Block.events) (rest.flatMap Block.events) := by
  induction rest generalizing done with
  | nil => exact announced_quiet _ (by simp)
  | cons b rest ih =>
    rw [List.flatMap_cons]
    refine (announced_block ?_).append ?_
    · have queued := List.mem_map_of_mem (f := taskQueued) (earlier done b rest split)
      simp only [queuedTasks, List.map_cons, List.map_flatMap, List.mem_cons, List.mem_flatMap] at queued
      rw [List.mem_append, List.mem_cons]
      rcases queued with first | ⟨block, there, listed⟩
      · exact .inr (.inl first)
      · refine .inr (.inr (List.mem_flatMap.2 ⟨block, there, ?_⟩))
        exact List.mem_append_right _ listed
    · have grown : opening ++ taskQueued seed :: done.flatMap Block.events ++ b.events =
          opening ++ taskQueued seed :: (done ++ [b]).flatMap Block.events := by
        simp
      rw [grown]
      exact ih (done ++ [b]) (by simp [split])

/-! ### The run -/

theorem opening_told (name : String)
    (other : ascii "question" ≠ ascii name ∧ ascii "keywords_extracted" ≠ ascii name)
    (question : Bytes) (keywords : List Bytes) : ∀ e ∈ openingEvents question keywords,
        told name e = false := by
  simp only [openingEvents, List.mem_cons, List.not_mem_nil, or_false, forall_eq_or_imp, forall_eq]
  exact ⟨(told_event _ _ _).trans (by simpa using other.1), (told_event _ _ _).trans
    (by simpa using other.2)⟩

theorem answer_told (name : String) (other : ascii "answer_found" ≠ ascii name) (result : ResearchResult) :
    ∀ e ∈ answerEvents result, told name e = false := by
  unfold answerEvents
  split_ifs
  · simp only [List.mem_singleton, forall_eq]
    exact (told_event _ _ _).trans (by simpa using other)
  · simp

theorem complete_told (name : String) (other : ascii "complete" ≠ ascii name) (result : ResearchResult) :
    ∀ e ∈ [complete result], told name e = false := by
  simp only [List.mem_singleton, forall_eq]
  exact (told_event _ _ _).trans (by simpa using other)

def turnsLog (asked : Bytes) (keywords : List Bytes) (seed : Task) (blocks : List Block)
    (result : ResearchResult) :
    List Json :=
  openingEvents asked keywords ++ taskQueued seed :: blocks.flatMap Block.events ++ answerEvents result ++
    [complete result]

section Log
variable (asked : Bytes) (keywords : List Bytes) (seed : Task) (blocks : List Block)
  (result : ResearchResult)

theorem idsOf_log (name : String)
    (other : ascii "question" ≠ ascii name ∧ ascii "keywords_extracted" ≠ ascii name ∧
      ascii "answer_found" ≠ ascii name) :
    idsOf name (turnsLog asked keywords seed blocks result) =
      (idsOf name [taskQueued seed] ++ blocks.flatMap fun b => idsOf name b.events) ++
          idsOf name [complete result] := by
  obtain ⟨question, extracted, answered⟩ := other
  have split : turnsLog asked keywords seed blocks result = openingEvents asked keywords ++
    ([taskQueued seed] ++
      blocks.flatMap Block.events) ++ answerEvents result ++ [complete result] := by
    simp [turnsLog]
  rw [split, idsOf_append, idsOf_append, idsOf_append, idsOf_append, idsOf_flatMap,
    idsOf_none (opening_told name ⟨question, extracted⟩ asked keywords),
      idsOf_none (answer_told name answered result),
    List.nil_append, List.append_nil]

theorem started_log :
    idsOf "task_started" (turnsLog asked keywords seed blocks result) = blocks.map fun b => b.task.id := by
  have first : idsOf "task_started" [taskQueued seed] = [] :=
    idsOf_none (taskQueued_told _ (by decide) [seed])
  rw [idsOf_log _ _ _ _ _ _ (by decide), idsOf_none (complete_told _ (by decide) _), List.append_nil, first]
  simp only [started_of_block, List.nil_append]
  exact List.map_eq_flatMap.symm

theorem queued_log :
    idsOf "task_queued" (turnsLog asked keywords seed blocks result) = (queuedTasks seed blocks).map
        Task.id := by
  have first : idsOf "task_queued" [taskQueued seed] = [seed.id] := idsOf_taskQueued [seed]
  rw [idsOf_log _ _ _ _ _ _ (by decide), idsOf_none (complete_told _ (by decide) _), List.append_nil, first]
  simp only [queued_of_block]
  simp [queuedTasks, List.map_flatMap]

theorem completed_log : (idsOf "complete" (turnsLog asked keywords seed blocks result)).length = 1 := by
  have first : idsOf "complete" [taskQueued seed] = [] := idsOf_none (taskQueued_told _ (by decide) [seed])
  rw [idsOf_log _ _ _ _ _ _ (by decide), first]
  simp only [completed_of_block]
  simp [idsOf, told, complete, eventName_event]

end Log

theorem idsOf_unseeded (name : String)
    (other : ascii "question" ≠ ascii name ∧ ascii "keywords_extracted" ≠ ascii name)
    (asked : Bytes) (keywords : List Bytes) (result : ResearchResult) :
    idsOf name (openingEvents asked keywords ++ [complete result]) = idsOf name [complete result] := by
  rw [idsOf_append, idsOf_none (opening_told name other asked keywords), List.nil_append]

theorem tale_shape {question : Bytes} {events : List Json} {result : ResearchResult}
    (tale : Tale parser question events result) : Shape events := by
  cases tale with
  | unseeded keywords _ results =>
    exact .unseeded _ _ _ ((told_event _ _ _).trans (by decide)) ((told_event _ _ _).trans (by decide))
      ((told_event _ _ _).trans (by decide))
  | seeded keywords low seed blocks waiting high _ root chronicled results =>
    have shaped := @Shape.seeded (event "question" [("question", .str question)])
      (event "keywords_extracted" [("keywords", .arr (keywords.map .str))]) (taskQueued seed)
        (complete result)
      (blocks.map Block.events) (answerEvents result) ((told_event _ _ _).trans (by decide))
      ((told_event _ _ _).trans (by decide)) ((told_event _ _ _).trans (by decide)) ?_ ?_ ?_
      ((told_event _ _ _).trans (by decide))
    · simpa [openingEvents, List.flatMap_def] using shaped
    · intro turn member
      obtain ⟨b, there, rfl⟩ := List.mem_map.1 member
      exact isTurn_events (chronicled.turns b there)
    · unfold answerEvents
      split_ifs
      · simp only [List.mem_singleton, forall_eq]
        exact (told_event _ _ _).trans (by decide)
      · simp
    · unfold answerEvents
      split_ifs <;> simp

theorem tale_protocol {question : Bytes} {events : List Json} {result : ResearchResult}
    (tale : Tale parser question events result) : Protocol events := by
  have shape := tale_shape tale
  cases tale with
  | unseeded keywords _ results =>
    refine ⟨shape, ?_, ?_, ?_, ?_, ?_⟩
    · rw [idsOf_unseeded _ (by decide), idsOf_none (complete_told _ (by decide) _)]
      exact .nil
    · rw [idsOf_unseeded _ (by decide), idsOf_none (complete_told _ (by decide) _)]
      exact .nil
    · apply announced_quiet
      exact List.forall_mem_append.2 ⟨opening_told _ (by decide) _ _, complete_told _ (by decide) _⟩
    · rw [idsOf_unseeded _ (by decide)]
      rfl
    · intro e member ended
      rw [idsOf_unseeded _ (by decide), idsOf_none (complete_told _ (by decide) _)]
      rcases List.mem_append.1 member with opened | finished
      · rw [opening_told "complete" (by decide) _ _ e opened] at ended
        cases ended
      · rw [List.mem_singleton.1 finished]
        exact congrArg (fun n : Nat => some (n : Int)) results.iterations
  | seeded keywords low seed blocks waiting high _ root chronicled results =>
    have started := started_log question keywords seed blocks result
    have queued := queued_log question keywords seed blocks result
    unfold turnsLog at started queued
    refine ⟨shape, ?_, ?_, ?_, ?_, ?_⟩
    · rw [queued]
      exact queued_ids root chronicled
    · rw [started]
      exact started_ids root chronicled
    · have opened : Announced [] (openingEvents question keywords ++ [taskQueued seed]) := by
        apply announced_quiet
        exact List.forall_mem_append.2 ⟨opening_told _ (by decide) _ _,
          taskQueued_told _ (by decide) [seed]⟩
      have turns := announced_blocks chronicled.earlier (openingEvents question keywords) [] blocks rfl
      have finished : ∀ before, Announced before (answerEvents result ++ [complete result]) := by
        intro before
        apply announced_quiet
        exact List.forall_mem_append.2 ⟨answer_told _ (by decide) _, complete_told _ (by decide) _⟩
      have whole := (opened.append turns).append (finished _)
      simpa using whole
    · exact completed_log question keywords seed blocks result
    · intro e member ended
      rw [started, List.length_map]
      simp only [List.mem_append, List.mem_cons] at member
      rcases member with ((opened | rfl | turns) | answer) | rfl | impossible
      · rw [opening_told "complete" (by decide) _ _ e opened] at ended
        cases ended
      · rw [taskQueued_told "complete" (by decide) [seed] _ List.mem_cons_self] at ended
        cases ended
      · obtain ⟨b, -, there⟩ := List.mem_flatMap.1 turns
        rw [uncompleted b e there] at ended
        cases ended
      · rw [answer_told "complete" (by decide) _ e answer] at ended
        cases ended
      · exact congrArg (fun n : Nat => some (n : Int)) results.iterations
      · cases impossible

/-- The log of every run keeps to the protocol, unless the run comes to a string that is not UTF-8. -/
theorem log_protocol (engine : Engine) (env : Environment) (question : Bytes) (w : World) :
    Runs (research engine env question) { w with events := [] } (fun _ w' => Protocol w'.events)
      fun e _ => e = .type :=
  (research_tale engine env question w).weaken fun _ _ tale => tale_protocol tale

end CppCoder.EventProtocol
