import Mathlib.Algebra.GroupWithZero.Nat
import CppCoder.Chronicle
import CppCoder.Samples

/-! What an answer rests on: the findings that workers called a success, with whatever summary the judge
left them. The model is asked for an answer only if there is such a finding. -/

namespace CppCoder.AnswerBasis
open Support Utf8 JsonValue Program CppCoder.Types TaskQueue Session OllamaClient JsonUtil Agent
  EngineLoop EngineRuns
open ResearchEngine Judge Chronicle

structure Review where
  raw : Finding
  reply : Option Bytes
  finding : Finding

def Settles (parser : Parser) (raw : Finding) (reply : Option Bytes) (summary : Bytes) : Prop :=
  ∃ text parsed relevant, reply = some text ∧ extractJsonObject text ≠ [] ∧
    parser.parse (extractJsonObject text) = some parsed ∧
    parsed.valueBool "summary_relevant" true = .ok relevant ∧ filteredSummary parsed relevant
      raw.summary = .ok summary

def Emptied (parser : Parser) (r : Review) : Prop :=
  Settles parser r.raw r.reply [] ∨ r.raw.summary = [] ∧ ∀ summary, ¬ Settles parser r.raw r.reply summary

theorem prune_settles (parser : Parser) (jsonStr : Bytes) (finding : Finding) :
    Runs (prune parser jsonStr) finding
      (fun _ f => f.summary = finding.summary ∨ ∃ parsed relevant, parser.parse jsonStr = some parsed ∧
        parsed.valueBool "summary_relevant" true = .ok relevant ∧
        filteredSummary parsed relevant finding.summary = .ok f.summary)
      fun _ f => f.summary = finding.summary ∨ ∃ parsed relevant, parser.parse jsonStr = some parsed ∧
        parsed.valueBool "summary_relevant" true = .ok relevant ∧
        filteredSummary parsed relevant finding.summary = .ok f.summary := by
  unfold prune
  cases parsing : parser.parse jsonStr with
  | none => exact Runs.throw (.inl rfl)
  | some parsed =>
    refine Runs.bind (Runs.orThrow (fun relevant verdict => ?_) fun _ _ => .inl rfl)
    refine Runs.bind (Runs.get (Runs.bind (Runs.orThrow (fun summary read => ?_) fun _ _ => .inl rfl)))
    have said : ∃ parsed' relevant', some parsed = some parsed' ∧
        parsed'.valueBool "summary_relevant" true = .ok relevant' ∧
        filteredSummary parsed' relevant' finding.summary = .ok summary :=
          ⟨parsed, relevant, rfl, verdict, read⟩
    refine Runs.bind (Runs.modify (Runs.bind (Runs.orThrow (fun _ _ => ?_) fun _ _ => .inr said)))
    refine Runs.bind (Runs.modify (Runs.modify ?_))
    split_ifs <;> exact .inr said

theorem prune_summary_eq (parser : Parser) {jsonStr summary : Bytes} {finding : Finding} {parsed : Json}
    {relevant : Bool} (parsing : parser.parse jsonStr = some parsed)
    (verdict : parsed.valueBool "summary_relevant" true = .ok relevant)
    (read : filteredSummary parsed relevant finding.summary = .ok summary) :
    Runs (prune parser jsonStr) finding (fun _ f => f.summary = summary) fun _ f => f.summary =
        summary := by
  unfold prune
  rw [parsing]
  refine Runs.bind (Runs.orThrow (fun relevant' same => ?_) fun e failed => ?_)
  · rw [verdict] at same
    cases same
    refine Runs.bind (Runs.get (Runs.bind (Runs.orThrow (fun summary' same => ?_) fun e failed => ?_)))
    · rw [read] at same
      cases same
      refine Runs.bind (Runs.modify (Runs.bind (Runs.orThrow (fun _ _ => ?_) fun _ _ => rfl)))
      refine Runs.bind (Runs.modify (Runs.modify ?_))
      split_ifs <;> rfl
    · rw [read] at failed
      cases failed
  · rw [verdict] at failed
    cases failed

theorem judged_of_settles {parser : Parser} {raw : Finding} {reply : Option Bytes} {summary : Bytes}
    (settles : Settles parser raw reply summary) : (judged parser raw reply).summary = summary := by
  obtain ⟨text, parsed, relevant, rfl, some, parsing, verdict, read⟩ := settles
  change (applyJudgeResponse parser text raw).summary = summary
  unfold applyJudgeResponse
  rw [if_neg some]
  exact @Runs.final _ _ _ _ _ (fun f : Finding => f.summary = summary)
    (prune_summary_eq parser parsing verdict read)

theorem judged_settles (parser : Parser) (raw : Finding) (reply : Option Bytes) :
    (judged parser raw reply).summary = raw.summary ∨
        Settles parser raw reply (judged parser raw reply).summary := by
  cases reply with
  | none => exact .inl rfl
  | some text =>
    have unfolded : judged parser raw (some text) = if extractJsonObject text = [] then raw else
        finalState (prune parser (extractJsonObject text) raw) := rfl
    rw [unfolded]
    split_ifs with none
    · exact .inl rfl
    · apply (prune_settles parser (extractJsonObject text) raw).final.imp id
      rintro ⟨parsed, relevant, parsing, verdict, read⟩
      exact ⟨text, parsed, relevant, rfl, none, parsing, verdict, read⟩

theorem judged_empty_iff (parser : Parser) (r : Review) :
    (judged parser r.raw r.reply).summary = [] ↔ Emptied parser r := by
  constructor
  · intro empty
    by_cases resolved : ∃ summary, Settles parser r.raw r.reply summary
    · obtain ⟨summary, settles⟩ := resolved
      have same := judged_of_settles settles
      rw [empty] at same
      exact .inl (same ▸ settles)
    · refine .inr ⟨?_, fun summary settles => resolved ⟨summary, settles⟩⟩
      rcases judged_settles parser r.raw r.reply with same | settles
      · exact same.symm.trans empty
      · exact absurd ⟨_, settles⟩ resolved
  · rintro (settles | ⟨blank, silent⟩)
    · exact judged_of_settles settles
    · rcases judged_settles parser r.raw r.reply with same | settles
      · exact same.trans blank
      · exact absurd settles (silent _)

theorem judged_success_iff (parser : Parser) (raw : Finding) (reply : Option Bytes) :
    (judged parser raw reply).outcome = .success ↔ raw.outcome = .success := by
  rcases (judged_judgement parser raw reply).outcome with same | ⟨partly, nothing, -⟩
  · rw [same]
  · rw [partly, nothing]
    exact iff_of_false (by simp) (by simp)

/-! ### Requests and reviews on record -/

def requestsOf : Act → Nat
  | .scanned _ shown => if shown.result.filesIncluded = [] then 0 else 1
  | .reviewed raw _ _ => if raw.outcome = .noInformation then 0 else 1
  | _ => 0

def requests (acts : List Act) : Nat := (acts.map requestsOf).sum

def reviewOf : Act → List Review
  | .reviewed raw reply finding => [⟨raw, reply, finding⟩]
  | _ => []

def reviews (acts : List Act) : List Review := acts.flatMap reviewOf

def Metered (found : List Review) (w w' : World) : Prop :=
  ∃ acts, w'.trace = w.trace ++ acts ∧ w'.calls = w.calls + requests acts ∧ reviews acts = found

theorem Metered.of_same {w w' : World} (trace : w'.trace = w.trace) (calls : w'.calls = w.calls) :
    Metered [] w w' :=
  ⟨[], by simp [trace], by simp [calls, requests], rfl⟩

theorem Metered.refl (w : World) : Metered [] w w := .of_same rfl rfl

theorem Metered.trans {first second : List Review} {a b c : World} (one : Metered first a b)
    (two : Metered second b c) : Metered (first ++ second) a c := by
  obtain ⟨acts, trace, calls, rfl⟩ := one
  obtain ⟨more, further, asked, rfl⟩ := two
  refine ⟨acts ++ more, ?_, ?_, ?_⟩
  · rw [further, trace, List.append_assoc]
  · rw [asked, calls]
    simp [requests, Nat.add_assoc]
  · simp [reviews]

theorem metered_record {act : Act} (free : requestsOf act = 0) (w : World) :
    Metered (reviewOf act) w { w with trace := w.trace ++ [act] } :=
  ⟨[act], rfl, by simp [requests, free], by simp [reviews]⟩

theorem pushes_metered (task : Task) (directions : List Task) (queue : Queue) (w : World) :
    Runs (directions.foldlM (pushDirection task) queue) w (fun _ w' => Metered [] w w') fun e _ =>
        e = .type := by
  refine Runs.foldlM (fun _ _ w' => Metered [] w w') directions ?_ (.refl w)
  intro _ dir _ queue' w' _ kept
  refine Runs.bind (runs_record (Runs.bind ?_))
  have free : requestsOf (.pushed (child task dir) (queue'.push (child task dir)).1) = 0 := rfl
  have pushed := kept.trans (metered_record free w')
  unfold announce
  split_ifs
  · exact runs_emit (fun _ => Runs.pure (pushed.trans (.of_same rfl rfl))) fun _ => rfl
  · exact Runs.pure (Runs.pure pushed)

variable {engine : Engine} {env : Environment} {question : Bytes}

theorem ask_calls (setup : Setup) (task : Task) (area : Bytes) (scan : CodebaseScanner.ScanResult)
    (w : World) :
    Runs (Worker.role.ask env setup task area scan) w
      (fun _ w' => w'.trace = w.trace ∧ w'.calls = w.calls + if scan.filesIncluded = [] then 0 else 1)
      fun e _ => e = .type := by
  unfold Role.ask
  split_ifs with nothing
  · exact Runs.pure ⟨rfl, by simp⟩
  · refine Runs.bind (runs_generate (fun _ => ?_) fun _ => rfl)
    cases responseText env.parser (env.http w.calls) <;> exact ⟨rfl, rfl⟩

theorem executeSingleArea_metered (setup : Setup) (task : Task) (area : Bytes) (w : World) :
    Runs (Worker.role.executeSingleArea env setup task area) w (fun _ w' => Metered [] w w')
        fun e _ => e = .type := by
  unfold Role.executeSingleArea
  refine Runs.bind (runs_record (Runs.bind (runs_now (Runs.bind (runs_get (Runs.bind (runs_record
    (Runs.bind ?_))))))))
  refine (ask_calls setup task area _ _).weaken fun finding w' asked => ?_
  obtain ⟨trace, calls⟩ := asked
  have scanned : Metered [] w w' := by
    refine ⟨[.investigating task area,
      .scanned area (setup.scanner.scanShown w.disk.fs area setup.tokenBudget)],
      ?_, ?_, rfl⟩
    · rw [trace, List.append_assoc]
      rfl
    · rw [calls]
      simp [requests, requestsOf]
  refine Runs.bind (runs_now (Runs.bind (runs_record (Runs.pure ?_))))
  exact (scanned.trans (.of_same rfl rfl)).trans (metered_record rfl _)

theorem execute_metered (setup : Setup) (task : Task) (w : World) :
    Runs (Worker.execute env setup task) w (fun _ w' => Metered [] w w') fun e _ => e = .type := by
  unfold Worker.execute Role.execute
  split_ifs
  · exact executeSingleArea_metered setup task task.targetArea w
  · refine Runs.bind (runs_now (Runs.bind ?_))
    refine (Runs.foldlM (fun _ _ w' => Metered [] w w') task.repeatTargets ?_ ?_).weaken ?_
    · intro _ area _ merged w' _ kept
      exact Runs.bind ((executeSingleArea_metered setup task area w').weaken fun _ w'' more =>
        Runs.pure (kept.trans more))
    · exact .of_same rfl rfl
    · intro merged w' kept
      exact Runs.bind (runs_now (Runs.pure (kept.trans (.of_same rfl rfl))))

theorem review_metered (raw : Finding) (w : World) :
    Runs (review env engine.client question raw) w
      (fun finding w' => ∃ reply, finding = judged env.parser raw reply ∧
        Metered [⟨raw, reply, finding⟩] w w')
      fun e _ => e = .type := by
  unfold review
  split_ifs with blank
  · refine Runs.bind (runs_record (Runs.pure ⟨none, rfl, ?_⟩))
    have free : requestsOf (.reviewed raw none raw) = 0 := if_pos blank
    exact metered_record free w
  · refine Runs.bind (runs_generate (fun _ => ?_) fun _ => rfl)
    refine Runs.bind (runs_record
      (Runs.pure ⟨responseText env.parser (env.http w.calls), ?_, [_], rfl, ?_, rfl⟩))
    · cases responseText env.parser (env.http w.calls) <;> rfl
    · simp [requests, requestsOf, blank]

theorem investigate_metered (task : Task) (w : World) :
    Runs (investigate engine env question task) w
      (fun finding w' => ∃ raw reply, finding = judged env.parser raw reply ∧
        Metered [⟨raw, reply, finding⟩] w w')
      fun e _ => e = .type := by
  unfold investigate
  refine Runs.bind ((execute_metered engine.setup task w).weaken fun raw w1 executed => ?_)
  refine Runs.bind (runs_emit (fun _ => Runs.bind ?_) fun _ => rfl)
  refine (review_metered raw _).weaken fun finding w2 reviewed => ?_
  obtain ⟨reply, same, metered⟩ := reviewed
  refine Runs.bind (runs_emit (fun _ => Runs.pure ⟨raw, reply, same, ?_⟩) fun _ => rfl)
  have before : Metered [] w { w1 with events := w1.events ++ [workerResult task raw] } :=
    executed.trans (.of_same rfl rfl)
  exact (before.trans metered).trans (.of_same rfl rfl)

/-! ### The run -/

/-- Between two tasks: the reviews so far, and the findings that they leave as successes. -/
structure Reviewed (parser : Parser) (found : List Review) (gathered : List Finding) : Prop where
  judged : ∀ r ∈ found, r.finding = Judge.judged parser r.raw r.reply
  gathered : gathered = (found.map Review.finding).filter fun finding => finding.outcome = .success

theorem Reviewed.append {parser : Parser} {found : List Review} {gathered : List Finding}
    (reviewed : Reviewed parser found gathered) {raw finding : Finding} {reply : Option Bytes}
    (judged : finding = Judge.judged parser raw reply) :
    Reviewed parser (found ++ [⟨raw, reply, finding⟩])
      (gathered ++ if finding.outcome = .success then [finding] else []) := by
  refine ⟨List.forall_mem_append.2 ⟨reviewed.judged, by simpa using judged⟩, ?_⟩
  rw [List.map_append, List.filter_append, reviewed.gathered]
  by_cases success : finding.outcome = .success <;> simp [success]

theorem process_reviewed (before : World) {task : Task} {queue : Queue} {progress : Progress (List Finding)}
    {w : World} {found : List Review} (metered : Metered found before w)
    (reviewed : Reviewed env.parser found progress.gathered) :
    Runs ((steps engine env question).process task queue progress) w
      (fun progress' w' => ∃ found', Metered found' before w' ∧
        Reviewed env.parser found' progress'.gathered)
      fun e _ => e = .type := by
  refine Steps.process_rule _ (fun _ => rfl) ?_
  refine (investigate_metered task _).weaken fun finding w1 investigated => ?_
  obtain ⟨raw, reply, same, one⟩ := investigated
  refine (settle_runs task finding progress.gathered _).weaken fun gathered' w2 settled => ?_
  obtain ⟨gathers, told⟩ := settled
  refine (pushes_metered task (followUps finding) _ w2).weaken fun queue' w3 pushed => ?_
  refine ⟨found ++ [⟨raw, reply, finding⟩], ?_, ?_⟩
  · have start : Metered [] w
      { w with trace := w.trace ++ [.started task], events := w.events ++ [taskStarted task] } :=
      (metered_record rfl w).trans (.of_same rfl rfl)
    have after : Metered [] w1 w2 := by
      rw [told]
      exact (metered_record rfl w1).trans (.of_same rfl rfl)
    have turn : Metered [⟨raw, reply, finding⟩] w w3 := by
      simpa using ((start.trans one).trans after).trans pushed
    exact metered.trans turn
  · have appended := reviewed.append same
    rw [← gathers] at appended
    exact appended

theorem explore_reviewed (before : World) {config : EngineConfig} {engineStart : Int} (left : Nat)
    {progress : Progress (List Finding)} {w : World} {found : List Review}
    (metered : Metered found before w) (reviewed : Reviewed env.parser found progress.gathered) :
    Runs ((steps engine env question).explore env config engineStart left progress) w
      (fun ended w' => ∃ found', Metered found' before w' ∧ Reviewed env.parser found' ended.1.gathered)
      fun e _ => e = .type := by
  refine ((steps engine env question).explore_runs
    (fun progress w => ∃ found, Metered found before w ∧
      Reviewed env.parser found progress.gathered) ?_ ?_ left
    progress w ⟨found, metered, reviewed⟩).weaken fun _ _ kept => kept.1
  · rintro progress w n ⟨found, ⟨acts, trace, calls, made⟩, reviewed⟩
    exact ⟨found, ⟨acts, trace, calls, made⟩, reviewed⟩
  · rintro progress w task queue - ⟨found, metered, reviewed⟩
    exact process_reviewed before metered reviewed

/-- What an answer rests on. The requests of a run are those for keywords, about areas and to the judge,
and one for an answer when there is one. -/
structure Rests (parser : Parser) (before after : World) (result : ResearchResult) : Prop where
  findings : result.successfulFindings =
    ((reviews after.trace).map Review.finding).filter fun finding => finding.outcome = .success
  kept : ∀ r ∈ reviews after.trace, r.finding.outcome = .success ↔ r.raw.outcome = .success
  emptied : ∀ r ∈ reviews after.trace, r.raw.outcome = .success →
    (r.finding.summary = [] ↔ Emptied parser r)
  answered : result.answered = true ↔ ∃ r ∈ reviews after.trace, r.raw.outcome = .success
  content : result.answered = true → (∃ finding ∈ result.successfulFindings, finding.summary ≠ []) ∨
    ∀ r ∈ reviews after.trace, r.raw.outcome = .success → Emptied parser r
  unanswered : result.answered = false → result.answer = []
  requests : after.calls = before.calls + 1 + requests after.trace + if result.answered = true then 1 else 0

theorem queueSeeds_metered (tasks : List Task) (w : World) :
    Runs (Seeding.queueSeeds tasks) w (fun _ w' => Metered [] w w') fun e _ => e = .type := by
  refine Runs.foldlM (fun _ _ w' => Metered [] w w') tasks ?_ (.refl w)
  intro _ t _ queue w' _ kept
  have free : requestsOf (.pushed t (queue.push t).1) = 0 := rfl
  have pushed := kept.trans (metered_record free w')
  exact Runs.bind (runs_record (Runs.bind (runs_emit (fun _ => Runs.pure (pushed.trans (.of_same rfl rfl)))
    fun _ => rfl)))

theorem answerFrom_calls (reason : Bytes) (result : ResearchResult) (w : World) :
    Runs (answerFrom engine env question reason result) w
      (fun result' w' => result'.successfulFindings = result.successfulFindings ∧ w'.trace = w.trace ∧
        w'.calls = w.calls + if result.successfulFindings = [] then 0 else 1) fun e _ => e = .type := by
  unfold answerFrom
  split
  case isTrue some =>
    unfold synthesizeAnswer
    refine Runs.bind (Runs.bind (runs_generate (fun _ => ?_) fun _ => rfl))
    cases responseText env.parser (env.http w.calls) <;>
      exact Runs.pure (Runs.bind (runs_emit (fun _ => Runs.pure ⟨rfl, rfl, by simp⟩) fun _ => rfl))
  case isFalse none =>
    have empty : result.successfulFindings = [] := by simpa using none
    exact Runs.pure ⟨rfl, rfl, by simp [empty]⟩

structure Account (parser : Parser) (before after : World) (result : ResearchResult) : Prop where
  reviewed : Reviewed parser (reviews after.trace) result.successfulFindings
  requests : after.calls = before.calls + 1 + requests after.trace + if result.successfulFindings =
    [] then 0 else 1

theorem research_account (engine : Engine) (env : Environment) (question : Bytes) (w : World) :
    Runs (research engine env question) { w with events := [], trace := [] }
      (fun result w' => Account env.parser w w' result) fun e _ => e = .type := by
  rw [research_opened]
  apply opened_runs
  · exact fun _ _ _ _ => rfl
  · intro keywords w' elapsed begun _ _
    have blank : w'.trace = [] := begun.trace
    have asked : w'.calls = w.calls + 1 := begun.calls
    refine Runs.bind (runs_emit (fun _ => Runs.pure ⟨⟨?_, ?_⟩, ?_⟩) fun _ => rfl)
    · simp [blank, reviews]
    · simp [blank, reviews]
    · simp [blank, requests, asked]
  · intro keywords w1 engineStart seed begun _ seeds
    have blank : w1.trace = [] := begun.trace
    have asked : w1.calls = w.calls + 1 := begun.calls
    refine Runs.bind ((queueSeeds_metered _ _).weaken fun queue w2 queued => Runs.bind ?_)
    have none : Reviewed env.parser [] (Progress.gathered ⟨queue, 0, []⟩) := ⟨by simp, rfl⟩
    apply (explore_reviewed _ _ queued none).weaken
    rintro ⟨progress, ending⟩ w3 ⟨found, ⟨acts, grown, counted, listed⟩, reviewed⟩
    refine Runs.bind (runs_now (Runs.bind ?_))
    refine (answerFrom_calls _ _ _).weaken fun result w4 answered => ?_
    obtain ⟨findings, still, calls⟩ := answered
    refine Runs.bind (runs_emit (fun _ => Runs.pure ?_) fun _ => rfl)
    have acted : w4.trace = acts := by
      have same := still.trans grown
      rwa [blank] at same
    refine ⟨?_, ?_⟩
    · change Reviewed env.parser (reviews w4.trace) result.successfulFindings
      rw [acted, listed, findings]
      exact reviewed
    · change w4.calls = w.calls + 1 + requests w4.trace + if result.successfulFindings = [] then 0 else 1
      rw [acted, findings, calls, ← asked]
      exact congrArg (· + _) counted

/-- An answer rests on successes of workers, which the judge may empty but not take away; without one, no
answer is asked for. -/
theorem answer_rests (engine : Engine) (env : Environment) (question : Bytes) (w : World) :
    Runs (research engine env question) { w with events := [], trace := [] }
      (fun result w' => Rests env.parser w w' result) fun e _ => e = .type := by
  have told := research_tale engine env question { w with trace := [] }
  refine ((research_account engine env question w).and told).imp ?_ fun _ _ failed => failed.1
  rintro result w' ⟨⟨⟨judged, findings⟩, requests⟩, tale⟩
  obtain ⟨blocks, results⟩ := tale.results
  have some : result.answered = true ↔ result.successfulFindings ≠ [] := by
    rw [results.answered, results.findings]
  have kept : ∀ r ∈ reviews w'.trace, r.finding.outcome = .success ↔ r.raw.outcome = .success := by
    intro r member
    rw [judged r member]
    exact judged_success_iff env.parser r.raw r.reply
  have emptied : ∀ r ∈ reviews w'.trace, r.finding.summary = [] ↔ Emptied env.parser r := by
    intro r member
    rw [judged r member]
    exact judged_empty_iff env.parser r
  have counted : ∀ r ∈ reviews w'.trace, r.raw.outcome = .success →
      r.finding ∈ result.successfulFindings := by
    intro r member success
    rw [findings]
    exact List.mem_filter.2 ⟨List.mem_map_of_mem member, by simpa using (kept r member).2 success⟩
  refine ⟨findings, kept, fun r member _ => emptied r member, ?_, ?_, results.unanswered, ?_⟩
  · rw [some]
    constructor
    · intro nonempty
      obtain ⟨finding, member⟩ := List.exists_mem_of_ne_nil _ nonempty
      rw [findings] at member
      obtain ⟨listed, success⟩ := List.mem_filter.1 member
      obtain ⟨r, there, rfl⟩ := List.mem_map.1 listed
      exact ⟨r, there, (kept r there).1 (by simpa using success)⟩
    · rintro ⟨r, member, success⟩
      exact List.ne_nil_of_mem (counted r member success)
  · intro _
    by_cases filled : ∃ finding ∈ result.successfulFindings, finding.summary ≠ []
    · exact .inl filled
    · right
      intro r member success
      apply (emptied r member).1
      by_contra something
      exact filled ⟨r.finding, counted r member success, something⟩
  · rw [requests]
    by_cases nothing : result.successfulFindings = []
    · have unanswered : ¬ result.answered = true := fun answered => some.1 answered nothing
      simp [nothing, unanswered]
    · simp [nothing, some.2 nothing]

/-! In the codebase of two files, the worker calls `a.cpp` a success, and the judge finds what it says
irrelevant. -/

def foundReply : Bytes := ascii "\x7b\"outcome\": \"success\", \"summary\": \"a cache\"\x7d"

def irrelevantReply : Bytes := ascii "\x7b\"summary_relevant\": false, \"keep_direction_indices\": []\x7d"

def emptiedEnv : Environment where
  parser := .table (exchanges [(foundReply, .obj [(ascii "outcome", .str (ascii "success")),
      (ascii "summary", .str (ascii "a cache"))]),
    (irrelevantReply, .obj [(ascii "summary_relevant", .bool false),
      (ascii "keep_direction_indices", .arr [])])])
    (by decide +kernel)
  http n :=
    if n = 1 then .response 200 (responseBody foundReply)
    else if n = 3 then .response 200 (responseBody irrelevantReply)
    else .failed
  clock _ := 0
  faults _ := .none

def emptiedEngine : Engine :=
  ⟨{}, ⟨Support.Paths.ofBytes (ascii "/r"), CodebaseScanner.defaultExtensions⟩, {}⟩

def emptiedRun : EStateM.Result Exn World ResearchResult :=
  research emptiedEngine emptiedEnv (ascii "where is the cache") { disk := { fs := Samples.cached } }

def resultOf : EStateM.Result Exn World ResearchResult → Option ResearchResult
  | .ok result _ => some result
  | .error _ _ => none

/-- The run answers, and asks the model for the answer, though nothing is left in its findings. -/
theorem emptied_answered : ∃ result, resultOf emptiedRun = some result ∧ result.answered = true ∧
    (∀ finding ∈ result.successfulFindings, finding.summary = []) ∧ (finalState emptiedRun).calls = 5 := by
  have run : (resultOf emptiedRun).any (fun result => result.answered &&
      result.successfulFindings.all fun finding => finding.summary.isEmpty) = true ∧
      (finalState emptiedRun).calls = 5 := by decide +kernel
  obtain ⟨result, returned, holds⟩ := Option.any_eq_true _ _ |>.1 run.1
  obtain ⟨answered, empty⟩ := Bool.and_eq_true_iff.1 holds
  exact ⟨result, returned, answered, by simpa using empty, run.2⟩

end CppCoder.AnswerBasis
