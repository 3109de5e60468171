import CppCoder.EngineRuns
import CppCoder.Merging
import CppCoder.Samples

/-! When a run comes to its end. Everything that is emitted or sent is serialised, and serialising a
string that is not UTF-8 throws outside every `try` block. -/

namespace CppCoder.Survival
open Support Utf8 JsonValue Program CppCoder.Types TaskQueue CodebaseScanner Session Reply Agent
  EngineLoop EngineRuns

def Legible : Act → Prop
  | .scanned area shown => shown.result.filesIncluded ≠ [] → Valid area ∧
      (∀ name ∈ shown.result.filesIncluded, Valid name) ∧ ∀ source ∈ shown.places, Valid source.2
  | _ => True

/-- The only ways in which a run may end early, of an engine that writes files or of one that does not. -/
def Fails (writes : Prop) (e : Exn) (w : World) : Prop :=
  e = .type ∧ (∃ act ∈ w.trace, ¬ Legible act) ∨ writes ∧ ∃ errno, e = .filesystem errno

variable {φ ρ : Type} {writes : Prop}

/-- What an engine's own steps need and leave: results whose directions are tasks for one area, and nothing
but a scan of bytes that are not UTF-8 that makes them throw. -/
structure Sturdy (writes : Prop) (steps : Steps φ ρ) (told : φ → Prop) (held : ρ → Prop) : Prop where
  investigate : ∀ task w, Clean task → Runs (steps.investigate task) w
    (fun result w' => told result ∧ Leaves Legible w w') (Fails writes)
  directions : ∀ result, told result → ∀ d ∈ steps.followUps result, Clean d
  settle : ∀ task result gathered w, Clean task → told result → held gathered →
    Runs (steps.settle task result gathered) w (fun gathered' w' => held gathered' ∧
      Leaves Legible w w') (Fails writes)

theorem clean_child {task dir : Task} (clean : Clean task) (direction : Clean dir) :
    Clean (child task dir) :=
  ⟨direction.id, direction.targetArea, direction.researchGoal, direction.successCriteria, clean.id⟩

theorem taskQueued_dumpable {task : Task} (clean : Clean task) : (taskQueued task).dumpable = true := by
  rw [taskQueued, event_dumpable]
  simp [clean.id, clean.parentId, clean.targetArea, clean.researchGoal]

theorem taskStarted_dumpable {task : Task} (clean : Clean task) : (taskStarted task).dumpable = true := by
  rw [taskStarted, event_dumpable]
  simp [clean.id, clean.targetArea]

theorem directionsToJson_dumpable {directions : List Task} (clean : ∀ d ∈ directions, Clean d) :
    (directionsToJson directions).dumpable = true := by
  unfold directionsToJson
  rw [dumpable_arr, List.forall_mem_map]
  intro d member
  have known := clean d member
  simp [known.id, known.targetArea, known.researchGoal]

theorem emits {shown : Json} (dumps : shown.dumpable = true) {w : World} {done : Unit → World → Prop}
    {failed : Exn → World → Prop} (holds : done () { w with events := w.events ++ [shown] }) :
    Runs (emit shown) w done failed := runs_emit (fun _ => holds) fun dirty => absurd dumps dirty

theorem leaves_record {condition : Act → Prop} {act : Act} (holds : condition act) (w : World) :
    Leaves condition w { w with trace := w.trace ++ [act] } := ⟨[act], rfl, by simpa using holds⟩

theorem push_runs {task dir : Task} (clean : Clean task) (direction : Clean dir) (queue : Queue)
    (w : World) :
    Runs (pushDirection task queue dir) w
      (fun queue' w' => (∀ other ∈ queue'.queue, other ∈ queue.queue ∨ other = child task dir) ∧
        Leaves Legible w w') (Fails writes) := by
  have known := push_queue queue (child task dir)
  refine Runs.bind (runs_record (Runs.bind ?_))
  unfold announce
  split_ifs
  · exact emits (taskQueued_dumpable (clean_child clean direction))
      (Runs.pure ⟨known, leaves_record trivial w⟩)
  · exact Runs.pure (Runs.pure ⟨known, leaves_record trivial w⟩)

/-- The loop between two tasks: what waits and what was gathered is clean, and so is what was shown. -/
structure Going (held : ρ → Prop) (progress : Progress ρ) (w : World) : Prop where
  waiting : ∀ task ∈ progress.queue.queue, Clean task
  held : held progress.gathered
  legible : ∀ act ∈ w.trace, Legible act

theorem legible_leaves {w w' : World} (before : ∀ act ∈ w.trace, Legible act)
    (leaves : Leaves Legible w w') :
    ∀ act ∈ w'.trace, Legible act := by
  obtain ⟨acts, grown, each⟩ := leaves
  rw [grown]
  exact List.forall_mem_append.2 ⟨before, each⟩

theorem process_going {steps : Steps φ ρ} {told : φ → Prop} {held : ρ → Prop}
    (sturdy : Sturdy writes steps told held) {task : Task}
    {queue : Queue} {progress : Progress ρ} {w : World}
    (next : progress.queue.pop = some (task, queue)) (going : Going held progress w) :
    Runs (steps.process task queue progress) w (Going held) (Fails writes) := by
  obtain ⟨waiting, gathered, legible⟩ := going
  rw [pop_queue next] at waiting
  have clean := waiting task List.mem_cons_self
  apply steps.process_rule (fun dirty => absurd (taskStarted_dumpable clean) dirty)
  apply (sturdy.investigate task _ clean).weaken
  rintro result w1 ⟨said, leaves1⟩
  have legible1 := legible_leaves (List.forall_mem_append.2 ⟨legible, by simp [Legible]⟩) leaves1
  apply (sturdy.settle task result _ _ clean said gathered).weaken
  rintro gathered' w2 ⟨holds, leaves2⟩
  have legible2 := legible_leaves (List.forall_mem_append.2 ⟨legible1, by simp [Legible]⟩) leaves2
  refine (Runs.foldlM (fun _ (queue' : Queue) (w' : World) => (∀ other ∈ queue'.queue, Clean other) ∧
    ∀ act ∈ w'.trace, Legible act) (steps.followUps result) ?_ ?_).weaken ?_
  · rintro read dir rest queue' w' split ⟨kept, shown⟩
    have direction := sturdy.directions result said dir (by simp [← split])
    apply (push_runs clean direction queue' w').weaken
    rintro queue'' w'' ⟨known, leaves⟩
    refine ⟨fun other member => ?_, legible_leaves shown leaves⟩
    rcases known other member with old | rfl
    · exact kept other old
    · exact clean_child clean direction
  · exact ⟨fun other member => waiting other (List.mem_cons_of_mem _ member), legible2⟩
  · rintro queue' w3 ⟨kept, shown⟩
    exact ⟨kept, holds, shown⟩

theorem explore_going {steps : Steps φ ρ} {told : φ → Prop} {held : ρ → Prop}
    (sturdy : Sturdy writes steps told held) {env : Environment}
    {config : EngineConfig} {engineStart : Int} (left : Nat) {progress : Progress ρ} {w : World}
    (going : Going held progress w) :
    Runs (steps.explore env config engineStart left progress) w
      (fun ended w' => Going held ended.1 w') (Fails writes) :=
  (steps.explore_runs (Going held) (fun _ _ _ kept => ⟨kept.waiting, kept.held, kept.legible⟩)
    (fun _ _ _ _ next kept => process_going sturdy next kept) left progress w going).weaken
      fun _ _ kept => kept.1

theorem legible_iff {role : Role φ} (prompts : role.Prompts) {setup : Setup}
    (model : Valid setup.client.model) {task : Task}
    (clean : Clean task) {fs : Support.Disk.FileSystem} {area : Bytes} {shown : Shown}
    (scanned : shown = setup.scanner.scanShown fs area setup.tokenBudget) :
    Legible (.scanned area shown) ↔
      (shown.result.filesIncluded ≠ [] → (role.request setup task area shown).dumpable = true) := by
  obtain ⟨empties, sound⟩ := @scanShown_sound setup.scanner fs area setup.tokenBudget
  rw [← scanned] at sound
  rw [request_dumpable prompts setup clean, and_iff_right model, sound.valid]
  rfl

theorem execute_legible (role : Role φ) (prompts : role.Prompts)
    (told : ∀ finding, Legible (role.toAct finding)) (env : Environment)
    (setup : Setup) (model : Valid setup.client.model) {task : Task} (clean : Clean task)
    (w : World) :
    Runs (role.execute env setup task) w
      (fun finding w' => (∃ fs subs, role.Executed env setup task fs subs finding) ∧
          Leaves Legible w w') (Fails writes) := by
  have acts : ∀ subs : List (SubRun φ), (∀ sub ∈ subs, sub.Sound role env setup task w.disk.fs) →
      ∀ act ∈ subs.flatMap fun sub => sub.acts role task, Legible act := by
    intro subs each act member
    obtain ⟨sub, there, listed⟩ := List.mem_flatMap.1 member
    have sound := each sub there
    simp only [SubRun.acts, List.mem_cons, List.not_mem_nil, or_false] at listed
    rcases listed with rfl | rfl | rfl
    · exact trivial
    · exact (legible_iff prompts model clean sound.scanned).2 sound.asked
    · exact told _
  apply (role.execute_runs env setup task w).imp
  · rintro finding w' ⟨subs, executed, adds⟩
    exact ⟨⟨_, subs, executed⟩, _, adds.trace, acts subs executed.each⟩
  · rintro e w' ⟨type, subs, area, shown, ⟨-, -, stuck⟩, adds⟩
    refine .inl ⟨type, .scanned area shown, by simp [adds.trace], fun legible => stuck.dirty ?_⟩
    exact (legible_iff prompts model clean stuck.scanned).1 legible stuck.something

/-! ### Research -/

/-- A finding that may be quoted. -/
def Quotable (finding : Finding) : Prop := Valid finding.areaInvestigated ∧ Valid finding.summary

/-- A finding about a valid area that may be quoted, with its directions. -/
def Told (finding : Finding) : Prop := Quotable finding ∧ ∀ d ∈ finding.suggestedDirections, Clean d

theorem workerResult_dumpable {task : Task} (clean : Clean task) {finding : Finding} (told : Told finding) :
    (ResearchEngine.workerResult task finding).dumpable = true := by
  have outcome : Valid (ResearchEngine.outcomeToString finding.outcome) := by
    cases finding.outcome <;> exact valid_ascii _
  rw [ResearchEngine.workerResult, event_dumpable]
  simp [clean.id, outcome, told.1.2, directionsToJson_dumpable told.2]

theorem judgeResult_dumpable {task : Task} (clean : Clean task) (raw : Finding) {finding : Finding}
    (told : Told finding) : (ResearchEngine.judgeResult task raw finding).dumpable = true := by
  have outcome : Valid (ResearchEngine.outcomeToString finding.outcome) := by
    cases finding.outcome <;> exact valid_ascii _
  rw [ResearchEngine.judgeResult, event_dumpable]
  simp [clean.id, outcome, told.1.2, directionsToJson_dumpable told.2]

theorem judged_told (parser : Parser) {raw : Finding} (told : Told raw) (reply : Option Bytes) :
    Told (Judge.judged parser raw reply) := by
  obtain ⟨summary, area⟩ := Judge.judged_summary parser told.1.2 reply
  exact ⟨⟨area ▸ told.1.1, summary⟩, fun d kept =>
    told.2 d ((Judge.judged_judgement parser raw reply).kept d kept)⟩

theorem research_sturdy (engine : ResearchEngine.Engine) (env : Environment) {question : Bytes}
    (model : Valid engine.client.model) (valid : Valid question) :
    Sturdy False (ResearchEngine.steps engine env question) Told fun findings => ∀ f ∈ findings,
        Quotable f where
  investigate task w clean := by
    refine Runs.bind ((execute_legible Worker.role Worker.role_prompts (fun _ => trivial) env
      engine.setup model clean w).weaken ?_)
    rintro raw w1 ⟨⟨fs, subs, executed⟩, leaves⟩
    have readable := Worker.executed_readable clean executed
    have told : Told raw :=
      ⟨⟨readable.area ▸ clean.targetArea, readable.summary⟩, fun d member =>
        (readable.directions d member).toClean⟩
    refine Runs.bind (emits (workerResult_dumpable clean told) (Runs.bind ?_))
    apply (Judge.review_runs env engine.client question raw _).imp
    · rintro finding w2 ⟨reply, rfl, adds⟩
      have said := judged_told env.parser told reply
      refine Runs.bind (emits (judgeResult_dumpable clean raw said) (Runs.pure ⟨said, ?_⟩))
      obtain ⟨acts, grown, legible⟩ := leaves
      refine ⟨acts ++ [.reviewed raw reply (Judge.judged env.parser raw reply)], ?_,
        List.forall_mem_append.2 ⟨legible, by simp [Legible]⟩⟩
      exact adds.trace.trans (by rw [grown, List.append_assoc])
    · rintro e w2 ⟨-, -, dirty, -⟩
      refine absurd ((OllamaClient.requestBody_dumpable _ _ _).2 ⟨model, ?_, valid_nil⟩) dirty
      exact Judge.valid_buildPrompt valid told.1.1 told.1.2 told.2
  directions finding told d followed := told.2 d (mem_followed followed)
  settle task finding gathered w clean told held := by
    change Runs (ResearchEngine.settle task finding gathered) w _ _
    unfold ResearchEngine.settle
    split_ifs
    · refine Runs.bind (emits ?_
        (Runs.pure ⟨List.forall_mem_append.2 ⟨held, by simpa using told.1⟩, .of_same rfl⟩))
      rw [event_dumpable]
      simp [clean.id, told.1.2]
    · exact Runs.pure ⟨held, .refl w⟩

/-! ### Editing -/

theorem emits_all {α : Type} {shown : α → Json} {items : List α}
    (dumps : ∀ item ∈ items, (shown item).dumpable = true) {w w' : World}
    (still : w'.trace = w.trace) :
    Runs (items.forM fun item => emit (shown item)) w' (fun _ w'' => w''.trace = w.trace) (Fails writes) :=
  Runs.forM items (fun item member _ same => emits (dumps item member) same) still

theorem editResult_dumpable {task : Task} (clean : Clean task) {finding : EditFinding}
    (told : Editor.Readable finding) : (EditEngine.editResult task finding).dumpable = true := by
  have outcome : Valid (EditEngine.outcomeToString finding.outcome) := by
    cases finding.outcome <;> exact valid_ascii _
  have edits : (EditEngine.editsToJson finding.edits).dumpable = true := by
    unfold EditEngine.editsToJson
    rw [dumpable_arr, List.forall_mem_map]
    intro e member
    simp [told.edits e member]
  rw [EditEngine.editResult, event_dumpable]
  simp [clean.id, outcome, told.summary, edits,
    directionsToJson_dumpable fun d member => (told.directions d member).toClean]

theorem applyFinding_runs (engine : EditEngine.Engine) (env : Environment) {task : Task}
    (clean : Clean task) {edits : List ProposedEdit} (valid : ∀ e ∈ edits, Valid e.path)
    (outcome : PatchApplier.ApplyOutcome) (w : World) :
    Runs (EditEngine.applyFinding engine env task edits outcome) w (fun _ w' => Leaves Legible w w')
        (Fails True) := by
  have applies : Runs (applyEdits env engine.root edits) w
      (fun applied w' => w'.trace = w.trace ∧ ∀ text ∈ applied.texts, Valid text) (Fails True) := by
    have texts := PatchApplier.apply_texts engine.root env.faults valid w.disk
    unfold Runs applyEdits
    cases result : PatchApplier.apply engine.root env.faults edits w.disk with
    | ok applied disk => exact ⟨rfl, texts.ok result⟩
    | error e disk => exact .inr ⟨trivial, e, rfl⟩
  refine Runs.bind (applies.weaken ?_)
  rintro applied w1 ⟨same, texts⟩
  have reported : ∀ text ∈ applied.texts, (EditEngine.editApplied task text).dumpable = true ∧
      ∀ reason, (EditEngine.editRejected reason task text).dumpable = true := by
    intro text member
    have valid := texts text member
    constructor
    · rw [EditEngine.editApplied, event_dumpable]
      simp [clean.id, valid]
    · intro reason
      rw [EditEngine.editRejected, event_dumpable]
      simp [clean.id, valid]
  have leaves : Leaves Legible w { w1 with trace := w1.trace ++ [.applied edits applied] } :=
    ⟨[.applied edits applied], by rw [same], by simp [Legible]⟩
  refine Runs.bind (runs_record (Runs.bind ((emits_all ?_ rfl).weaken fun _ w2 one =>
    Runs.bind ((emits_all ?_ one).weaken fun _ w3 two =>
      Runs.bind ((emits_all ?_ two).weaken fun _ w4 three => Runs.pure ?_)))))
  · exact fun text member => (reported text (by simp [PatchApplier.ApplyOutcome.texts, member])).1
  · exact fun text member => (reported text (by simp [PatchApplier.ApplyOutcome.texts, member])).2 _
  · exact fun text member => (reported text (by simp [PatchApplier.ApplyOutcome.texts, member])).2 _
  · exact leaves.trans w _ w4 (.of_same three)

theorem edit_sturdy (engine : EditEngine.Engine) (env : Environment) (model : Valid engine.client.model) :
    Sturdy True (EditEngine.steps engine env) Editor.Readable fun _ => True where
  investigate task w clean := by
    refine Runs.bind ((execute_legible Editor.role Editor.role_prompts (fun _ => trivial) env
      engine.setup model clean w).weaken ?_)
    rintro finding w1 ⟨⟨fs, subs, executed⟩, leaves⟩
    have told := Editor.executed_readable clean executed
    exact Runs.bind (emits (editResult_dumpable clean told) (Runs.pure ⟨told, leaves⟩))
  directions finding told d followed := (told.directions d (mem_followed followed)).toClean
  settle task finding gathered w clean told _ := by
    change Runs (EditEngine.settle engine env task finding gathered) w _ _
    unfold EditEngine.settle
    split_ifs
    · refine Runs.bind ((applyFinding_runs engine env clean
        (fun e member => (told.edits e member).1) _ w).weaken ?_)
      exact fun _ _ leaves => Runs.pure ⟨trivial, leaves⟩
    · refine Runs.bind ((emits_all (fun e member => ?_) rfl).weaken fun _ w1 same =>
        Runs.pure ⟨trivial, .of_same same⟩)
      rw [EditEngine.editProposed, event_dumpable]
      simp [clean.id, told.edits e member]
    · exact Runs.pure ⟨trivial, .refl w⟩

/-! ### Runs -/

def AllLegible (model : Bytes) (trace : List Act) : Prop := Valid model ∧ ∀ act ∈ trace, Legible act

/-- A run that returns has shown nothing else, and ends with its last event; one that throws has. -/
def Decided {α : Type} (writes : Prop) (model : Bytes) (complete : α → Json) (program : Prog α)
    (w : World) : Prop :=
  Runs program w
    (fun result w' => AllLegible model w'.trace ∧ ∃ events, w'.events = events ++ [complete result])
    fun e w' => e = .type ∧ ¬ AllLegible model w'.trace ∨ writes ∧ ∃ errno, e = .filesystem errno

theorem fails_decided {model : Bytes} {e : Exn} {w : World} (fails : Fails writes e w) :
    e = .type ∧ ¬ AllLegible model w.trace ∨ writes ∧ ∃ errno, e = .filesystem errno := by
  refine fails.imp ?_ id
  rintro ⟨type, act, member, illegible⟩
  exact ⟨type, fun all => illegible (all.2 act member)⟩

theorem queueSeeds_going {seed : Task} (clean : Clean seed) (held : ρ → Prop) (gathered : ρ)
    (holds : held gathered) {w : World} (blank : w.trace = []) :
    Runs (Seeding.queueSeeds [seed]) w
      (fun queue w' => Going held { queue, iterations := 0, gathered } w') (Fails writes) := by
  apply Seeding.queueSeeds_rule (fun dirty => absurd (taskQueued_dumpable clean) dirty)
  exact ⟨by simpa using clean, holds, by simp [blank, Legible]⟩

theorem clean_seed {scanner : Scanner} {fs : Support.Disk.FileSystem} {goal : Bytes} {keywords : List Bytes}
    {seed : Task} (seeds : Seeds scanner fs goal keywords seed) (valid : Valid goal) : Clean seed :=
  ⟨seeds.id, seeds.targetArea, seeds.goal ▸ valid, seeds.successCriteria, seeds.parentId ▸ valid_nil⟩

theorem valid_findingLines {findings : List Finding} (quotable : ∀ f ∈ findings, Quotable f) :
    Valid (ResearchEngine.findingLines findings) := by
  refine valid_flatMap fun f member => ?_
  obtain ⟨area, summary⟩ := quotable f member
  rw [valid_append_ascii, valid_append_right summary, valid_append_ascii, valid_append_right area]
  exact valid_ascii _

theorem valid_synthesisPrompt {question : Bytes} (valid : Valid question) {findings : List Finding}
    (quotable : ∀ f ∈ findings, Quotable f) : Valid (ResearchEngine.synthesisPrompt question findings) := by
  unfold ResearchEngine.synthesisPrompt
  simp only [valid_append_ascii, valid_append_right (valid_findingLines quotable),
    valid_append_right valid, valid_ascii]

theorem answerFrom_survives (engine : ResearchEngine.Engine) (env : Environment) {question reason : Bytes}
    (model : Valid engine.client.model) (valid : Valid question) (worded : Valid reason)
    {result : ResearchEngine.ResearchResult}
    (quotable : ∀ f ∈ result.successfulFindings, Quotable f) {w : World}
    {failed : Exn → World → Prop} :
    Runs (ResearchEngine.answerFrom engine env question reason result) w
      (fun result' w' => w'.trace = w.trace ∧ Valid result'.terminationReason) failed := by
  have reasoned : ∀ other : String, Valid (if reason = [] then ascii other else reason) := by
    intro other
    split_ifs
    · exact valid_ascii _
    · exact worded
  unfold ResearchEngine.answerFrom
  split
  · refine Runs.bind (Runs.bind (OllamaClient.runs_generate (fun _ => ?_) fun dirty => absurd ?_ dirty))
    rotate_left
    · exact (OllamaClient.requestBody_dumpable _ _ _).2
        ⟨model, valid_synthesisPrompt valid quotable, valid_nil⟩
    cases replied : OllamaClient.responseText env.parser (env.http w.calls) with
    | none =>
      refine Runs.pure (Runs.bind (emits ?_ (Runs.pure ⟨rfl, reasoned _⟩)))
      rw [event_dumpable]
      simp [valid_findingLines quotable]
    | some answer =>
      refine Runs.pure (Runs.bind (emits ?_ (Runs.pure ⟨rfl, reasoned _⟩)))
      rw [event_dumpable]
      simp [OllamaClient.valid_responseText replied]
  · exact Runs.pure ⟨rfl, reasoned _⟩

/-- A run is decided once its loop is, if what both engines do before it shows nothing but UTF-8. -/
theorem decided_opened {α : Type} {env : Environment} {client : OllamaClient.OllamaConfig} {maxCount : Nat}
    {prompt goal : Bytes} {first : Json} {scanner : Scanner} {id successCriteria : String}
    {unseeded : Int → α} {complete : α → Json}
    {onward : Int → List Task → Prog α} (shown : first.dumpable = true) (worded : Valid prompt)
    (finished : ∀ elapsed, (complete (unseeded elapsed)).dumpable = true) (valid : Valid goal) {w : World}
    (blank : w.trace = [])
    (started : ∀ w' engineStart seed, Valid client.model → w'.trace = [] → Clean seed →
      Decided writes client.model complete (onward engineStart [seed]) w') :
    Decided writes client.model complete
      (opened env client maxCount prompt first scanner id successCriteria goal unseeded complete
          onward) w := by
  apply opened_runs
  · intro w' _ _ dirty
    refine .inl ⟨rfl, fun all => dirty ⟨shown, ?_⟩⟩
    exact (OllamaClient.requestBody_dumpable _ _ _).2 ⟨all.1, worded, valid_nil⟩
  · intro keywords w' elapsed begun _ _
    have model := ((OllamaClient.requestBody_dumpable _ _ _).1 begun.asked).1
    refine Runs.bind (emits (finished elapsed) (Runs.pure ⟨⟨model, ?_⟩, _, rfl⟩))
    intro act member
    change act ∈ w'.trace at member
    rw [begun.trace, blank] at member
    cases member
  · intro keywords w' engineStart seed begun _ seeds
    have model := ((OllamaClient.requestBody_dumpable _ _ _).1 begun.asked).1
    exact started w' engineStart seed model (begun.trace.trans blank)
      (clean_seed (seedInitialTasks_seeds seeds) valid)

theorem research_decided (engine : ResearchEngine.Engine) (env : Environment) {question : Bytes}
    (valid : Valid question) {w : World} (blank : w.trace = []) :
    Decided False engine.client.model ResearchEngine.complete
        (ResearchEngine.research engine env question) w := by
  have complete : ∀ result : ResearchEngine.ResearchResult, Valid result.terminationReason →
      (ResearchEngine.complete result).dumpable = true := by
    intro result worded
    rw [ResearchEngine.complete, event_dumpable]
    simp [worded]
  have prompt : Valid (ResearchEngine.keywordPrompt engine.config.maxInitialKeywords question) := by
    unfold ResearchEngine.keywordPrompt
    simp only [valid_append_right valid, valid_append_ascii]
    exact (valid_ascii _).append (valid_decimal _)
  rw [research_opened]
  refine decided_opened ?_ prompt (fun _ => complete _ (valid_ascii _)) valid blank ?_
  · rw [event_dumpable]
    simp [valid]
  · intro w1 engineStart seed model still clean
    refine Runs.bind ((queueSeeds_going clean (fun findings => ∀ f ∈ findings, Quotable f) [] ?_
      still).imp ?_
      fun _ _ => fails_decided)
    · exact fun _ absent => absurd absent List.not_mem_nil
    intro queue w2 going
    refine Runs.bind ((explore_going (research_sturdy engine env model valid) _ going).imp ?_
      fun _ _ => fails_decided)
    rintro ⟨progress, ending⟩ w3 ⟨-, quotable, legible⟩
    unfold ResearchEngine.conclude
    refine Runs.bind (runs_now
      (Runs.bind ((answerFrom_survives engine env model valid ?_ quotable).weaken ?_)))
    · cases ending
      exacts [valid_nil, valid_ascii _, valid_ascii _]
    · rintro result w4 ⟨same, worded⟩
      refine Runs.bind (emits (complete result worded) (Runs.pure ⟨⟨model, ?_⟩, _, rfl⟩))
      change ∀ act ∈ w4.trace, Legible act
      rw [same]
      exact legible

theorem run_decided (engine : EditEngine.Engine) (env : Environment) {taskDescription : Bytes}
    (valid : Valid taskDescription) {w : World} (blank : w.trace = []) :
    Decided True engine.client.model EditEngine.complete (EditEngine.run engine env taskDescription) w := by
  have complete : ∀ result : EditEngine.EditRunResult, Valid result.terminationReason →
      (EditEngine.complete result).dumpable = true := by
    intro result worded
    rw [EditEngine.complete, event_dumpable]
    simp [worded]
  have prompt : Valid (EditEngine.keywordPrompt engine.config.maxInitialKeywords taskDescription) := by
    unfold EditEngine.keywordPrompt
    simp only [valid_append_right valid, valid_append_ascii]
    exact (valid_ascii _).append (valid_decimal _)
  rw [edit_opened]
  refine decided_opened ?_ prompt (fun _ => complete _ (valid_ascii _)) valid blank ?_
  · rw [event_dumpable]
    simp [valid]
  · intro w1 engineStart seed model still clean
    refine Runs.bind ((queueSeeds_going clean (fun _ : EditEngine.Gathered => True) {} trivial still).imp ?_
      fun _ _ => fails_decided)
    intro queue w2 going
    refine Runs.bind ((explore_going (edit_sturdy engine env model) _ going).imp ?_ fun _ _ =>
      fails_decided)
    rintro ⟨progress, ending⟩ w3 ⟨-, -, legible⟩
    unfold EditEngine.conclude
    refine Runs.bind (runs_now (Runs.bind (emits (complete _ ?_) (Runs.pure ⟨⟨model, legible⟩, _, rfl⟩))))
    cases ending <;> exact valid_ascii _

theorem generate_returns_iff (env : Environment) (config : OllamaClient.OllamaConfig)
    (prompt systemPrompt : Bytes)
    (w : World) : (∃ reply w', OllamaClient.generate env config prompt systemPrompt w = .ok reply w') ↔
      Valid config.model ∧ Valid prompt ∧ Valid systemPrompt := by
  rw [← OllamaClient.requestBody_dumpable]
  unfold OllamaClient.generate
  split_ifs with dumps
  · exact ⟨fun _ => dumps, fun _ => ⟨_, _, rfl⟩⟩
  · refine ⟨?_, fun clean => absurd clean dumps⟩
    rintro ⟨reply, w', thrown⟩
    cases thrown

/-- The run returns, and the last event it emits is that it is complete. -/
def Completes {α : Type} (complete : α → Json) (ended : EStateM.Result Exn World α) : Prop :=
  ∃ result w' events, ended = .ok result w' ∧ w'.events = events ++ [complete result]

theorem completes_iff_returns {α : Type} {model : Bytes} {complete : α → Json}
    {program : Prog α} {w : World} (decided : Decided writes model complete program w)
    (calm : writes → ∀ e w', program w ≠ .error (.filesystem e) w') :
    Completes complete (program w) ↔ AllLegible model (finalState (program w)).trace := by
  unfold Decided at decided
  cases ended : program w with
  | ok result w' =>
    obtain ⟨legible, events, last⟩ := decided.ok ended
    exact ⟨fun _ => legible, fun _ => ⟨result, w', events, rfl, last⟩⟩
  | error e w' =>
    rcases decided.error ended with ⟨-, illegible⟩ | ⟨wrote, errno, rfl⟩
    · refine ⟨?_, fun legible => absurd legible illegible⟩
      rintro ⟨result, w', events, other, -⟩
      cases other
    · exact absurd ended (calm wrote errno w')

/-- A request returns exactly when all its texts are UTF-8; and a run, about a text that is UTF-8 and with
file-system calls that do not throw, is completed exactly when the model's name and all names and contents
that it shows to the model are UTF-8. -/
theorem run_completes_iff (research : ResearchEngine.Engine) (edit : EditEngine.Engine) (env : Environment)
    (text : Bytes) (valid : Valid text) (w : World)
    (calm : ∀ e w', EditEngine.run edit env text { w with trace := [] } ≠ .error (.filesystem e) w') :
    (∀ config prompt systemPrompt w,
      (∃ reply w', OllamaClient.generate env config prompt systemPrompt w = .ok reply w') ↔
        Valid config.model ∧ Valid prompt ∧ Valid systemPrompt) ∧
    (Completes ResearchEngine.complete (ResearchEngine.research research env text { w with trace := [] }) ↔
      AllLegible research.client.model
        (finalState (ResearchEngine.research research env text { w with trace := [] })).trace) ∧
    (Completes EditEngine.complete (EditEngine.run edit env text { w with trace := [] }) ↔
      AllLegible edit.client.model
        (finalState (EditEngine.run edit env text { w with trace := [] })).trace) :=
  ⟨generate_returns_iff env, completes_iff_returns (research_decided research env valid rfl) False.elim,
    completes_iff_returns (run_decided edit env valid rfl) fun _ => calm⟩

/-! A codebase `/r` with one file, that mentions a cache and is UTF-8 or not. -/

def oneFile (content : Bytes) : Support.Disk.FileSystem where
  tree := .sub Samples.r (.leaf Samples.aCpp (.file content true) .nil) .nil
  distinct := ⟨List.not_mem_nil, ⟨List.not_mem_nil, trivial⟩, trivial⟩
  cwd := []

def silentEnv : Environment where
  parser := .table [] (by simp)
  http _ := .failed
  clock _ := 0
  faults _ := .none

def oneScanner : Scanner := ⟨Support.Paths.ofBytes (ascii "/r"), defaultExtensions⟩

def oneResearch : ResearchEngine.Engine := ⟨{}, oneScanner, {}⟩

def oneEdit : EditEngine.Engine := ⟨{}, oneScanner, oneScanner.root, {}⟩

/-- Whether a program returned. -/
def returned {ε σ α : Type} : EStateM.Result ε σ α → Bool
  | .ok _ _ => true
  | .error _ _ => false

def oneWorld (content : Bytes) : World := { disk := { fs := oneFile content } }

theorem run_completes_iff_legible :
    (Completes ResearchEngine.complete
        (ResearchEngine.research oneResearch silentEnv (ascii "find the cache")
          (oneWorld (ascii "cache"))) ↔
      AllLegible oneResearch.client.model (finalState
        (ResearchEngine.research oneResearch silentEnv (ascii "find the cache")
          (oneWorld (ascii "cache")))).trace) ∧
    (Completes EditEngine.complete
        (EditEngine.run oneEdit silentEnv (ascii "find the cache") (oneWorld (ascii "cache"))) ↔
      AllLegible oneEdit.client.model (finalState
        (EditEngine.run oneEdit silentEnv (ascii "find the cache") (oneWorld (ascii "cache")))).trace) := by
  have returns : returned (EditEngine.run oneEdit silentEnv (ascii "find the cache")
      (oneWorld (ascii "cache"))) = true := by
    decide +kernel
  refine (run_completes_iff oneResearch oneEdit silentEnv (ascii "find the cache") (valid_ascii _)
    (oneWorld (ascii "cache")) fun e w' threw => ?_).2
  change EditEngine.run oneEdit silentEnv (ascii "find the cache") (oneWorld (ascii "cache")) = _ at threw
  rw [threw] at returns
  cases returns

/-- The request about a file that is not UTF-8 throws through the whole run, in both engines. -/
theorem run_dies :
    returned (OllamaClient.generate silentEnv {} [0xFF] [] (oneWorld [])) = false ∧
    ¬ Completes ResearchEngine.complete
      (ResearchEngine.research oneResearch silentEnv (ascii "find the cache")
        (oneWorld (ascii "cache" ++ [0xFF]))) ∧
    ¬ Completes EditEngine.complete
      (EditEngine.run oneEdit silentEnv (ascii "find the cache") (oneWorld (ascii "cache" ++ [0xFF]))) := by
  have threw : ∀ {α : Type} {complete : α → Json} {ended : EStateM.Result Exn World α},
    returned ended = false →
      ¬ Completes complete ended := by
    rintro α complete _ threw ⟨result, w', events, rfl, -⟩
    cases threw
  exact ⟨by decide +kernel, threw (by decide +kernel), threw (by decide +kernel)⟩

end CppCoder.Survival
