import CppCoder.EngineRuns
import CppCoder.Numbering

/-! The chronicle of a research run: what became of each task, in the order in which the tasks were
taken. The events of the run tell it. -/

namespace CppCoder.Chronicle
open Support Utf8 JsonValue Program CppCoder.Types BreadthFirst TaskQueue Session Agent
  EngineLoop EngineRuns
open ResearchEngine Numbering

/-- One turn of the loop: the task, what the worker found, what the judge left of it, and the directions
that were queued. -/
structure Block where
  task : Task
  raw : Finding
  finding : Finding
  queued : List Task

def progressEvents (task : Task) (finding : Finding) : List Json :=
  if finding.outcome = .success then
    [event "answer_progress" [("id", .str task.id), ("summary", .str finding.summary)]]
  else []

def Block.events (b : Block) : List Json :=
  [taskStarted b.task, workerResult b.task b.raw, judgeResult b.task b.raw b.finding] ++
    progressEvents b.task b.finding ++ b.queued.map taskQueued

def queuedTasks (seed : Task) (blocks : List Block) : List Task := seed :: blocks.flatMap Block.queued

def successes (blocks : List Block) : List Finding :=
  (blocks.map Block.finding).filter fun finding => finding.outcome = .success

def proposed (blocks : List Block) : List Task := blocks.flatMap fun b => b.raw.suggestedDirections

structure Turn (parser : Parser) (b : Block) : Prop where
  judged : ∃ reply, b.finding = Judge.judged parser b.raw reply
  children : ∀ t ∈ b.queued, ∃ d ∈ b.finding.suggestedDirections, t = child b.task d
  partly : b.queued ≠ [] → b.finding.outcome = .partialWithDirections

theorem Turn.none_queued {parser : Parser} {b : Block} (turn : Turn parser b)
    (success : b.finding.outcome = .success) :
    b.queued = [] := by
  by_contra some
  have partly := turn.partly some
  rw [success] at partly
  cases partly

/-- The turns so far, the tasks that wait, and the range of the numbers given to directions. -/
structure Chronicled (parser : Parser) (low : Nat) (seed : Task) (blocks : List Block) (waiting : List Task)
    (high : Nat) : Prop where
  turns : ∀ b ∈ blocks, Turn parser b
  fifo : queuedTasks seed blocks = blocks.map Block.task ++ waiting
  earlier : ∀ before b after, blocks = before ++ b :: after → b.task ∈ queuedTasks seed before
  areas : ((queuedTasks seed blocks).map Task.targetArea).Nodup
  numbered : Numbered low high (proposed blocks)

theorem queuedTasks_append (seed : Task) (blocks : List Block) (b : Block) :
    queuedTasks seed (blocks ++ [b]) = queuedTasks seed blocks ++ b.queued := by
  simp [queuedTasks]

theorem successes_append (blocks : List Block) (b : Block) :
    successes (blocks ++ [b]) = successes blocks ++ if b.finding.outcome =
        .success then [b.finding] else [] := by
  unfold successes
  rw [List.map_append, List.filter_append]
  by_cases success : b.finding.outcome = .success <;> simp [success]

variable {parser : Parser} {low high : Nat} {seed : Task} {blocks : List Block} {waiting : List Task}

theorem Chronicled.start (parser : Parser) (low : Nat) (seed : Task) : Chronicled parser low seed []
    [seed] low where
  turns := by simp
  fifo := rfl
  earlier before b after split := by simp at split
  areas := by simp [queuedTasks]
  numbered := Numbered.none le_rfl

theorem Chronicled.turn {b : Block} {rest : List Task} {further : Nat}
    (chronicled : Chronicled parser low seed blocks (b.task :: rest) high) (turn : Turn parser b)
    (fresh : ((queuedTasks seed blocks ++ b.queued).map Task.targetArea).Nodup)
    (numbered : Numbered high further b.raw.suggestedDirections) :
    Chronicled parser low seed (blocks ++ [b]) (rest ++ b.queued) further where
  turns := List.forall_mem_append.2 ⟨chronicled.turns, by simpa using turn⟩
  fifo := by
    rw [queuedTasks_append, chronicled.fifo]
    simp
  earlier before block after split := by
    rcases List.eq_nil_or_concat after with rfl | ⟨front, last, rfl⟩
    · obtain ⟨rfl, last⟩ := List.append_inj' split rfl
      rw [← List.singleton_inj.1 last, chronicled.fifo]
      simp
    · have whole : blocks = before ++ block :: front := by
        have cut : blocks ++ [b] = (before ++ block :: front) ++ [last] := by simpa using split
        exact (List.append_inj' cut rfl).1
      exact chronicled.earlier before block front whole
  areas := by
    rw [queuedTasks_append]
    exact fresh
  numbered := by
    have more : proposed (blocks ++ [b]) = proposed blocks ++ b.raw.suggestedDirections :=
      by simp [proposed]
    rw [more]
    exact chronicled.numbered.append numbered

/-! ### One turn -/

def Uncounted (w w' : World) : Prop := w'.counters = w.counters

theorem Uncounted.trans (a b c : World) (one : Uncounted a b) (two : Uncounted b c) : Uncounted a c :=
  Eq.trans two one

theorem uncounted_review (env : Environment) (client : OllamaClient.OllamaConfig) (topic : Bytes)
    (raw : Finding) :
    Keeps Uncounted (Judge.review env client topic raw) := by
  intro w
  unfold Judge.review
  split_ifs
  · exact Runs.bind (runs_record (Runs.pure rfl))
  · refine Runs.bind (OllamaClient.runs_generate (fun _ => ?_) fun _ => rfl)
    exact Runs.bind (runs_record (Runs.pure rfl))

variable {engine : Engine} {env : Environment} {question : Bytes}

structure Investigated (env : Environment) (task : Task) (w : World) (raw finding : Finding)
    (w' : World) : Prop where
  judged : ∃ reply, finding = Judge.judged env.parser raw reply
  events : w'.events = w.events ++ [workerResult task raw, judgeResult task raw finding]
  numbered : Numbered (w.counters .worker) (w'.counters .worker) raw.suggestedDirections

theorem investigate_runs (task : Task) (w : World) :
    Runs (investigate engine env question task) w
      (fun finding w' => ∃ raw, Investigated env task w raw finding w') fun e _ => e = .type := by
  have executes : Runs (Worker.execute env engine.setup task) w (fun raw w' => w'.events = w.events ∧
      Numbered (w.counters .worker) (w'.counters .worker) raw.suggestedDirections) fun e _ =>
          e = .type := by
    have adds := Worker.role.execute_runs env engine.setup task w
    have counted := @execute_counted _ _ _ worker_counts env engine.setup task w
    refine (adds.and counted).imp ?_ fun _ _ failed => failed.1.1
    rintro raw w' ⟨⟨_, _, grown⟩, numbered⟩
    exact ⟨grown.events, numbered⟩
  unfold investigate
  refine Runs.bind (executes.weaken fun raw w1 found => Runs.bind (runs_emit (fun _ => ?_) fun _ => rfl))
  obtain ⟨events, numbered⟩ := found
  have reviews := (Judge.review_runs env engine.client question raw
    { w1 with events := w1.events ++ [workerResult task raw] }).and
      (uncounted_review env engine.client question raw _)
  refine Runs.bind (reviews.imp ?_ fun _ _ failed => failed.1.1)
  rintro finding w2 ⟨⟨reply, judged, adds⟩, counters⟩
  refine Runs.bind (runs_emit (fun _ => Runs.pure ⟨raw, ⟨reply, judged⟩, ?_, ?_⟩) fun _ => rfl)
  · rw [adds.events, events]
    simp
  · rw [counters]
    exact numbered

theorem settle_runs (task : Task) (finding : Finding) (gathered : List Finding) (w : World) :
    Runs (settle task finding gathered) w
      (fun gathered' w' => gathered' = gathered ++ (if finding.outcome = .success then [finding] else []) ∧
        w' = { w with events := w.events ++ progressEvents task finding }) fun e _ => e = .type := by
  unfold settle progressEvents
  split_ifs with success
  · exact Runs.bind (runs_emit (fun _ => Runs.pure ⟨rfl, rfl⟩) fun _ => rfl)
  · exact Runs.pure ⟨by simp, by simp⟩

/-- The directions that were queued: those whose areas are new, with an event for each. -/
structure Pushes (task : Task) (done : List Task) (queue : Queue) (w : World) (directions : List Task)
    (queue' : Queue) (w' : World) : Prop where
  tracks : queue'.Tracks done
  waiting : queue'.queue = queue.queue ++ fresh Task.targetArea (done ++ queue.queue)
    (directions.map (child task))
  events : w'.events = w.events ++
    (fresh Task.targetArea (done ++ queue.queue) (directions.map (child task))).map taskQueued
  counters : w'.counters = w.counters

theorem pushDirection_pushes (task dir : Task) {queue : Queue} {done : List Task}
    (tracks : queue.Tracks done) (w : World) :
    Runs (pushDirection task queue dir) w (fun queue' w' => Pushes task done queue w [dir] queue' w')
      fun e _ => e = .type := by
  have pushed := tracks.push (child task dir)
  have accepted := tracks.accepted (child task dir)
  refine Runs.bind (runs_record (Runs.bind ?_))
  unfold announce
  split_ifs with taken
  · rw [if_pos taken] at accepted
    refine runs_emit (fun _ => Runs.pure ⟨pushed.1, pushed.2, ?_, rfl⟩) fun _ => rfl
    rw [List.map_singleton, accepted]
    rfl
  · rw [if_neg taken] at accepted
    refine Runs.pure (Runs.pure ⟨pushed.1, pushed.2, ?_, rfl⟩)
    rw [List.map_singleton, accepted]
    simp

theorem pushes_runs (task : Task) (directions : List Task) {queue : Queue} {done : List Task}
    (tracks : queue.Tracks done) (w : World) :
    Runs (directions.foldlM (pushDirection task) queue) w
      (fun queue' w' => Pushes task done queue w directions queue' w') fun e _ => e = .type := by
  apply Runs.foldlM (fun read queue' w' => Pushes task done queue w read queue' w') directions
  · rintro read dir rest queue' w' - ⟨tracked, waiting, events, counters⟩
    refine (pushDirection_pushes task dir tracked w').weaken fun queue'' w'' more => ?_
    have joined : fresh Task.targetArea (done ++ queue.queue) ((read ++ [dir]).map (child task)) =
        fresh Task.targetArea (done ++ queue.queue) (read.map (child task)) ++
          fresh Task.targetArea (done ++ queue'.queue) ([dir].map (child task)) := by
      rw [List.map_append, fresh_append, waiting, List.append_assoc]
    refine ⟨more.tracks, ?_, ?_, more.counters.trans counters⟩
    · rw [more.waiting, joined, waiting, List.append_assoc]
    · rw [more.events, joined, events, List.map_append, List.append_assoc]
  · exact ⟨tracks, by simp [fresh], by simp [fresh], rfl⟩

structure Telling (parser : Parser) (low : Nat) (opening : List Json) (seed : Task)
    (progress : Progress (List Finding)) (w : World) (blocks : List Block) : Prop where
  chronicled : Chronicled parser low seed blocks progress.queue.queue (w.counters .worker)
  tracks : progress.queue.Tracks (blocks.map Block.task)
  events : w.events = opening ++ taskQueued seed :: blocks.flatMap Block.events
  iterations : progress.iterations = blocks.length
  gathered : progress.gathered = successes blocks

theorem process_telling {opening : List Json} {task : Task} {queue : Queue}
    {progress : Progress (List Finding)} {w : World}
    (next : progress.queue.pop = some (task, queue))
    (telling : Telling env.parser low opening seed progress w blocks) :
    Runs ((steps engine env question).process task queue progress) w
      (fun progress' w' => ∃ blocks', Telling env.parser low opening seed progress' w' blocks')
          fun e _ => e = .type := by
  obtain ⟨chronicled, tracks, events, iterations, gathered⟩ := telling
  have distinct : (progress.queue.queue.map Task.targetArea).Nodup := by
    have all := chronicled.areas
    rw [chronicled.fifo, List.map_append] at all
    exact (List.nodup_append.1 all).2.1
  obtain ⟨visited, front⟩ := tracks.visit distinct next
  rw [front] at chronicled
  refine Steps.process_rule _ (fun _ => rfl) ?_
  refine (investigate_runs task _).weaken fun finding w1 found => ?_
  obtain ⟨raw, ⟨judged, told, numbered⟩⟩ := found
  refine (settle_runs task finding progress.gathered _).weaken fun gathered' w2 settled => ?_
  obtain ⟨gathers, same⟩ := settled
  refine (pushes_runs task (followUps finding) visited w2).weaken fun queue' w3 pushes => ?_
  obtain ⟨tracked, waiting, announced, counters⟩ := pushes
  -- the tasks that were ever queued are those that were taken and those that wait
  have known : queuedTasks seed blocks = blocks.map Block.task ++ [task] ++
      (queue.markVisited task.targetArea).queue := by
    rw [chronicled.fifo]
    simp [Queue.markVisited]
  let block : Block := ⟨task, raw, finding,
    fresh Task.targetArea (queuedTasks seed blocks) ((followUps finding).map (child task))⟩
  have turn : Turn env.parser block := by
    refine ⟨judged, ?_, ?_⟩
    · intro t member
      obtain ⟨d, followed, rfl⟩ := List.mem_map.1 ((fresh_sublist _ _ _).subset member)
      exact ⟨d, mem_followed followed, rfl⟩
    · intro some
      by_contra other
      have none : followUps finding = [] := if_neg other
      exact some (by simp [block, none, fresh])
  rw [← known] at waiting announced
  refine ⟨blocks ++ [block], ?_, ?_, ?_, ?_, ?_⟩
  · have more := @Chronicled.turn _ _ _ _ _ block _ (w3.counters .worker) chronicled turn
      (fresh_nodup _ chronicled.areas _) ?_
    · change Chronicled _ _ _ _ queue'.queue _
      rw [waiting]
      exact more
    · rw [counters, same]
      exact numbered
  · change queue'.Tracks _
    rw [List.map_append]
    exact tracked
  · rw [announced, same, List.flatMap_append]
    simp [told, events, Block.events, block]
  · simp [iterations]
  · rw [successes_append, ← gathered]
    exact gathers

theorem explore_telling {opening : List Json} {config : EngineConfig} {engineStart : Int} (left : Nat)
    {progress : Progress (List Finding)} {w : World}
    (telling : Telling env.parser low opening seed progress w blocks) :
    Runs ((steps engine env question).explore env config engineStart left progress) w
      (fun ended w' => ∃ blocks', Telling env.parser low opening seed ended.1 w' blocks') fun e _ =>
          e = .type := by
  refine ((steps engine env question).explore_runs
    (fun progress w => ∃ blocks, Telling env.parser low opening seed progress w blocks) ?_ ?_
      left progress w
    ⟨blocks, telling⟩).weaken fun _ _ kept => kept.1
  · rintro progress w n ⟨blocks, kept⟩
    exact ⟨blocks, kept.chronicled, kept.tracks, kept.events, kept.iterations, kept.gathered⟩
  · rintro progress w task queue next ⟨blocks, kept⟩
    exact process_telling next kept

theorem queueSeeds_telling (parser : Parser) (opening : List Json) (seed : Task) {w : World}
    (events : w.events = opening) :
    Runs (Seeding.queueSeeds [seed]) w
      (fun queue w' => Telling parser (w.counters .worker) opening seed ⟨queue, 0, []⟩ w' [])
          fun e _ => e = .type := by
  apply Seeding.queueSeeds_rule (fun _ => rfl)
  exact ⟨.start _ _ _, ⟨by simp, by simp⟩, by simp [events], rfl, rfl⟩

/-! ### The run -/

def openingEvents (question : Bytes) (keywords : List Bytes) : List Json :=
  [event "question" [("question", .str question)], event "keywords_extracted"
    [("keywords", .arr (keywords.map .str))]]

def answerEvents (result : ResearchResult) : List Json :=
  if result.answered = true then [event "answer_found" [("answer", .str result.answer)]] else []

structure Root (seed : Task) : Prop where
  id : seed.id = ascii "seed"
  depth : seed.depth = 0
  parentId : seed.parentId = []

structure Results (blocks : List Block) (result : ResearchResult) : Prop where
  iterations : result.iterationsRun = blocks.length
  findings : result.successfulFindings = successes blocks
  answered : result.answered = true ↔ successes blocks ≠ []
  unanswered : result.answered = false → result.answer = []

/-- The events and the result of a run: it finds nothing to start from, or takes turns from a seed on. -/
inductive Tale (parser : Parser) (question : Bytes) : List Json → ResearchResult → Prop
  | unseeded (keywords : List Bytes) (result : ResearchResult) (results : Results [] result) :
      Tale parser question (openingEvents question keywords ++ [complete result]) result
  | seeded (keywords : List Bytes) (low : Nat) (seed : Task) (blocks : List Block)
    (waiting : List Task) (high : Nat) (result : ResearchResult)
    (root : Root seed) (chronicled : Chronicled parser low seed blocks
        waiting high)
      (results : Results blocks result) :
      Tale parser question (openingEvents question keywords ++ taskQueued seed :: blocks.flatMap
        Block.events ++
        answerEvents result ++ [complete result]) result

theorem Tale.results {question : Bytes} {events : List Json} {result : ResearchResult}
    (tale : Tale parser question events result) : ∃ blocks, Results blocks result := by
  cases tale with
  | unseeded _ _ results => exact ⟨_, results⟩
  | seeded _ _ _ _ _ _ _ _ _ results => exact ⟨_, results⟩

theorem answerFrom_tells (reason : Bytes) {result : ResearchResult} (fresh : result.answered = false)
    (blank : result.answer = []) (iterations : result.iterationsRun = blocks.length)
    (findings : result.successfulFindings = successes blocks) (w : World) :
    Runs (answerFrom engine env question reason result) w
      (fun result' w' => Results blocks result' ∧ w'.events = w.events ++ answerEvents result')
          fun e _ => e = .type := by
  unfold answerFrom
  split
  case isTrue some =>
    have synthesis : Runs (synthesizeAnswer env engine.client question result.successfulFindings) w
        (fun _ w' => w'.events = w.events) fun e _ => e = .type := by
      unfold synthesizeAnswer
      refine Runs.bind (OllamaClient.runs_generate (fun _ => ?_) fun _ => rfl)
      cases OllamaClient.responseText env.parser (env.http w.calls) <;> exact Runs.pure rfl
    refine Runs.bind (synthesis.weaken fun answer w' same => ?_)
    refine Runs.bind (runs_emit (fun _ => Runs.pure ⟨⟨iterations, findings, ?_, ?_⟩, ?_⟩) fun _ => rfl)
    · rw [← findings]
      exact iff_of_true rfl some
    · intro impossible
      cases impossible
    · rw [same]
      rfl
  case isFalse none =>
    refine Runs.pure ⟨⟨iterations, findings, ?_, fun _ => blank⟩, ?_⟩
    · rw [← findings]
      exact iff_of_false (by simp [fresh]) none
    · simp [answerEvents, fresh]

theorem seedInitialTasks_root {scanner : CodebaseScanner.Scanner} {fs : Support.Disk.FileSystem}
    {successCriteria : String} {goal : Bytes} {keywords : List Bytes}
    (seeds : Seeding.seedInitialTasks scanner fs "seed" successCriteria goal keywords = [seed]) :
        Root seed := by
  unfold Seeding.seedInitialTasks at seeds
  dsimp only at seeds
  split_ifs at seeds
  cases seeds
  exact ⟨rfl, rfl, rfl⟩

theorem research_tale (engine : Engine) (env : Environment) (question : Bytes) (w : World) :
    Runs (research engine env question) { w with events := [] }
      (fun result w' => Tale env.parser question w'.events result) fun e _ => e = .type := by
  rw [research_opened]
  apply opened_runs
  · exact fun _ _ _ _ => rfl
  · intro keywords w' elapsed begun _ _
    refine Runs.bind (runs_emit (fun _ => Runs.pure ?_) fun _ => rfl)
    have opening : w'.events = openingEvents question keywords := begun.events
    rw [opening]
    exact .unseeded keywords _ ⟨rfl, rfl, iff_of_false (by simp) (by simp [successes]), fun _ => rfl⟩
  · intro keywords w' engineStart seed begun _ seeds
    have root := seedInitialTasks_root seeds
    refine Runs.bind ((queueSeeds_telling env.parser _ seed begun.events).weaken fun queue w2 telling => ?_)
    refine Runs.bind ((explore_telling _ telling).weaken ?_)
    rintro ⟨progress, ending⟩ w3 ⟨blocks, chronicled, -, events, iterations, gathered⟩
    refine Runs.bind (runs_now (Runs.bind ?_))
    refine (answerFrom_tells _ rfl rfl iterations gathered _).weaken fun result w4 concluded => ?_
    obtain ⟨results, told⟩ := concluded
    refine Runs.bind (runs_emit (fun _ => Runs.pure ?_) fun _ => rfl)
    rw [told, events]
    exact Tale.seeded keywords _ seed blocks _ _ result root chronicled results

end CppCoder.Chronicle
