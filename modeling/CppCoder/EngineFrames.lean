import CppCoder.EngineRuns

/-! What a run cannot do: relations between worlds that hold across every run of an engine because they hold
across each of its events and across everything that touches neither the tree nor the events. -/

namespace CppCoder.EngineFrames
open Support Utf8 JsonValue Program CppCoder.Types PatchApplier Session Agent EngineLoop EngineRuns

/-- A relation that holds across steps beside the tree and the events, and across certain events. -/
structure Framed (relation : World → World → Prop) (told : Json → Prop) : Prop where
  trans : ∀ a b c, relation a b → relation b c → relation a c
  aside : ∀ w w', w'.disk = w.disk → w'.events = w.events → relation w w'
  emit : ∀ w e, told e → relation w { w with events := w.events ++ [e] }

variable {relation : World → World → Prop} {told : Json → Prop} (framed : Framed relation told)
variable {α β : Type}
include framed

namespace Framed

theorem refl (w : World) : relation w w := framed.aside w w rfl rfl

theorem pure (a : α) : Keeps relation (Pure.pure a : Prog α) := Keeps.pure framed.refl a

theorem bind {program : Prog α} {next : α → Prog β} (first : Keeps relation program)
    (second : ∀ a, Keeps relation (next a)) : Keeps relation (program >>= next) :=
  Keeps.bind framed.trans first second

theorem record (act : Act) : Keeps relation (record act) := fun w => framed.aside w _ rfl rfl

theorem now (env : Environment) : Keeps relation (now env) := fun w => framed.aside w _ rfl rfl

theorem tell {e : Json} (tells : told e) : Keeps relation (Session.emit e) :=
  fun w => runs_emit (fun _ => framed.emit w e tells) fun _ => framed.refl w

theorem generate (env : Environment) (config : OllamaClient.OllamaConfig) (prompt systemPrompt : Bytes) :
    Keeps relation (OllamaClient.generate env config prompt systemPrompt) :=
  fun w => OllamaClient.runs_generate (fun _ => framed.aside w _ rfl rfl) fun _ => framed.refl w

theorem adds {program : Prog α} {good : World → α → World → Prop} {bad : World → Exn → World → Prop}
    (runs : ∀ w, Runs program w (good w) (bad w)) (done : ∀ w a w', good w a w' → ∃ acts, Adds w acts w')
    (failed : ∀ w e w', bad w e w' → ∃ acts, Adds w acts w') : Keeps relation program := by
  intro w
  apply (runs w).imp
  · intro a w' holds
    obtain ⟨acts, adds⟩ := done w a w' holds
    exact framed.aside w w' adds.disk adds.events
  · intro e w' holds
    obtain ⟨acts, adds⟩ := failed w e w' holds
    exact framed.aside w w' adds.disk adds.events

theorem execute (role : Role α) (env : Environment) (setup : Setup) (task : Task) :
    Keeps relation (role.execute env setup task) := by
  apply framed.adds (role.execute_runs env setup task)
  · intro w finding w' ⟨subs, _, adds⟩
    exact ⟨_, adds⟩
  · intro w e w' ⟨_, subs, area, shown, _, adds⟩
    exact ⟨_, adds⟩

theorem queueSeeds (queued : ∀ task, told (taskQueued task)) (tasks : List Task) :
    Keeps relation (Seeding.queueSeeds tasks) := by
  refine Keeps.foldlM framed.refl framed.trans (fun queue t => ?_) _ _
  exact framed.bind (framed.record _) fun _ => framed.bind (framed.tell (queued t)) fun _ => framed.pure _

theorem explore {φ ρ : Type} (steps : Steps φ ρ) (started : ∀ task, told (taskStarted task))
    (queued : ∀ task, told (taskQueued task)) (investigate : ∀ task, Keeps relation (steps.investigate task))
    (settle : ∀ task result gathered, Keeps relation (steps.settle task result gathered)) (env : Environment)
    (config : EngineConfig) (engineStart : Int) (left : Nat) (progress : Progress ρ) :
    Keeps relation (steps.explore env config engineStart left progress) :=
  steps.keeps_explore framed.refl framed.trans (fun w _ => framed.aside w _ rfl rfl) framed.record
    (fun task => framed.tell (started task)) (fun task => framed.tell (queued task)) investigate settle env config
    engineStart left progress

theorem opened {env : Environment} {client : OllamaClient.OllamaConfig} {maxCount : Nat} {prompt goal : Bytes}
    {first : Json} {scanner : CodebaseScanner.Scanner} {id successCriteria : String} {unseeded : Int → α}
    {complete : α → Json} {onward : Int → List Task → Prog α} (begins : told first)
    (keywords : ∀ keywords : List Bytes, told (event "keywords_extracted" [("keywords", .arr (keywords.map .str))]))
    (ends : ∀ elapsed, told (complete (unseeded elapsed)))
    (goes : ∀ engineStart tasks, Keeps relation (onward engineStart tasks)) :
    Keeps relation (opened env client maxCount prompt first scanner id successCriteria goal unseeded complete
      onward) := by
  have extracts : Keeps relation (Seeding.extractKeywords env client maxCount prompt goal) := by
    apply framed.adds (Seeding.extractKeywords_runs env client maxCount prompt goal)
    · intro w words w' ⟨_, _, _, adds, _⟩
      exact ⟨_, adds⟩
    · intro w e w' ⟨_, _, adds⟩
      exact ⟨_, adds⟩
  unfold EngineRuns.opened
  refine framed.bind (framed.now env) fun engineStart => framed.bind (framed.tell begins) fun _ =>
    framed.bind extracts fun words => framed.bind (framed.tell (keywords words)) fun _ =>
    framed.bind (fun w => framed.refl w) fun fs => ?_
  split_ifs
  · exact framed.bind (framed.now env) fun stop => framed.bind (framed.tell (ends _)) fun _ => framed.pure _
  · exact goes _ _

end Framed
omit framed

/-! ### Research -/

inductive Emitted : Json → Prop where
  | question (asked : Bytes) : Emitted (event "question" [("question", .str asked)])
  | keywords (keywords : List Bytes) :
      Emitted (event "keywords_extracted" [("keywords", .arr (keywords.map .str))])
  | queued (task : Task) : Emitted (taskQueued task)
  | started (task : Task) : Emitted (taskStarted task)
  | worker (task : Task) (raw : Finding) : Emitted (ResearchEngine.workerResult task raw)
  | judge (task : Task) (raw finding : Finding) : Emitted (ResearchEngine.judgeResult task raw finding)
  | progress (task : Task) (finding : Finding) :
      Emitted (event "answer_progress" [("id", .str task.id), ("summary", .str finding.summary)])
  | answer (answer : Bytes) : Emitted (event "answer_found" [("answer", .str answer)])
  | complete (result : ResearchEngine.ResearchResult) : Emitted (ResearchEngine.complete result)

theorem research_framed (framed : Framed relation Emitted) (engine : ResearchEngine.Engine) (env : Environment)
    (question : Bytes) : Keeps relation (ResearchEngine.research engine env question) := by
  have investigate : ∀ task, Keeps relation (ResearchEngine.investigate engine env question task) := by
    intro task
    refine framed.bind (framed.execute Worker.role env _ task) fun raw =>
      framed.bind (framed.tell (.worker task raw)) fun _ => framed.bind ?_ fun finding =>
      framed.bind (framed.tell (.judge task raw finding)) fun _ => framed.pure _
    apply framed.adds (Judge.review_runs env engine.client question raw)
    · intro w finding w' ⟨reply, _, adds⟩
      exact ⟨_, adds⟩
    · intro w e w' ⟨_, _, _, adds⟩
      exact ⟨_, adds⟩
  have settle : ∀ task finding gathered, Keeps relation (ResearchEngine.settle task finding gathered) := by
    intro task finding gathered
    unfold ResearchEngine.settle
    split_ifs
    · exact framed.bind (framed.tell (.progress task finding)) fun _ => framed.pure _
    · exact framed.pure _
  have answers : ∀ reason result, Keeps relation
      (ResearchEngine.answerFrom engine env question reason result) := by
    intro reason result
    unfold ResearchEngine.answerFrom
    split
    · refine framed.bind (framed.bind (framed.generate env _ _ _) fun response => ?_) fun answer =>
        framed.bind (framed.tell (.answer answer)) fun _ => framed.pure _
      cases response <;> exact framed.pure _
    · exact framed.pure _
  rw [research_opened]
  refine framed.opened (.question question) .keywords (fun elapsed => .complete _) fun engineStart tasks => ?_
  refine framed.bind (framed.queueSeeds .queued tasks) fun queue => framed.bind ?_ fun ended => ?_
  · exact framed.explore _ .started .queued investigate settle env _ _ _ _
  · exact framed.bind (framed.now env) fun _ => framed.bind (answers _ _) fun result =>
      framed.bind (framed.tell (.complete result)) fun _ => framed.pure _

inductive EditEmitted : Json → Prop where
  | task (asked : Bytes) : EditEmitted (event "task" [("task", .str asked)])
  | keywords (keywords : List Bytes) :
      EditEmitted (event "keywords_extracted" [("keywords", .arr (keywords.map .str))])
  | queued (task : Task) : EditEmitted (taskQueued task)
  | started (task : Task) : EditEmitted (taskStarted task)
  | result (task : Task) (finding : EditFinding) : EditEmitted (EditEngine.editResult task finding)
  | applied (task : Task) (path : Bytes) : EditEmitted (EditEngine.editApplied task path)
  | rejected (reason : String) (task : Task) (path : Bytes) : EditEmitted (EditEngine.editRejected reason task path)
  | proposed (task : Task) (edit : ProposedEdit) : EditEmitted (EditEngine.editProposed task edit)
  | complete (result : EditEngine.EditRunResult) : EditEmitted (EditEngine.complete result)

variable {engine : EditEngine.Engine} {env : Environment}

theorem edit_framed (framed : Framed relation EditEmitted)
    (applies : engine.config.apply = true → ∀ edits, Keeps relation (applyEdits env engine.root edits))
    (taskDescription : Bytes) : Keeps relation (EditEngine.run engine env taskDescription) := by
  have each : ∀ {γ : Type} (items : List γ) (shown : γ → Json), (∀ item, EditEmitted (shown item)) →
      Keeps relation (items.forM fun item => emit (shown item)) := by
    intro γ items shown tells
    induction items with
    | nil => exact framed.pure _
    | cons item rest ih => exact framed.bind (framed.tell (tells item)) fun _ => ih
  have investigate : ∀ task, Keeps relation (EditEngine.investigate engine env task) := by
    intro task
    exact framed.bind (framed.execute Editor.role env _ task) fun finding =>
      framed.bind (framed.tell (.result task finding)) fun _ => framed.pure _
  have settle : ∀ task finding gathered, Keeps relation (EditEngine.settle engine env task finding gathered) := by
    intro task finding gathered
    unfold EditEngine.settle
    split_ifs with offers applying
    · refine framed.bind ?_ fun _ => framed.pure _
      exact framed.bind (applies applying _) fun applied => framed.bind (framed.record _) fun _ =>
        framed.bind (each _ _ (.applied task)) fun _ => framed.bind (each _ _ (.rejected _ task)) fun _ =>
        framed.bind (each _ _ (.rejected _ task)) fun _ => framed.pure _
    · exact framed.bind (each _ _ (.proposed task)) fun _ => framed.pure _
    · exact framed.pure _
  rw [edit_opened]
  refine framed.opened (.task taskDescription) .keywords (fun elapsed => .complete _) fun engineStart tasks => ?_
  refine framed.bind (framed.queueSeeds .queued tasks) fun queue => framed.bind ?_ fun ended => ?_
  · exact framed.explore _ .started .queued investigate settle env _ _ _ _
  · exact framed.bind (framed.now env) fun _ => framed.bind (framed.tell (.complete _)) fun _ => framed.pure _

def Spares (w w' : World) : Prop := w'.disk = w.disk

theorem spares_framed (told : Json → Prop) : Framed Spares told where
  trans _ _ _ one two := two.trans one
  aside _ _ disk _ := disk
  emit _ _ _ := rfl

/-- What was emitted meanwhile is of a certain kind. -/
def Tells (told : Json → Prop) (w w' : World) : Prop :=
  ∃ events, w'.events = w.events ++ events ∧ ∀ e ∈ events, told e

theorem tells_framed (told : Json → Prop) : Framed (Tells told) told where
  trans a b c := by
    intro ⟨first, grown, each⟩ ⟨second, further, rest⟩
    refine ⟨first ++ second, ?_, List.forall_mem_append.2 ⟨each, rest⟩⟩
    rw [further, grown, List.append_assoc]
  aside w w' _ events := ⟨[], by rw [events, List.append_nil], List.forall_mem_nil _⟩
  emit w e tells := ⟨[e], rfl, List.forall_mem_singleton.2 tells⟩

theorem applies_tells (told : Json → Prop) (env : Environment) (root : Support.Paths.Path)
    (edits : List ProposedEdit) : Keeps (Tells told) (applyEdits env root edits) := by
  intro w
  unfold Runs applyEdits
  cases PatchApplier.apply root env.faults edits w.disk with
  | ok outcome disk => exact ⟨[], (List.append_nil _).symm, List.forall_mem_nil _⟩
  | error e disk => exact ⟨[], (List.append_nil _).symm, List.forall_mem_nil _⟩

theorem emits_of_tells {told : Json → Prop} {program : Prog α} (tells : Keeps (Tells told) program) (w : World) :
    ∀ e ∈ (finalState (program { w with events := [] })).events, told e := by
  have every : Runs program { w with events := [] } (fun _ w' => ∀ e ∈ w'.events, told e)
      fun _ w' => ∀ e ∈ w'.events, told e :=
    (tells { w with events := [] }).imp (fun _ _ ⟨_, grown, each⟩ => grown ▸ each)
      fun _ _ ⟨_, grown, each⟩ => grown ▸ each
  exact every.final

theorem research_emits (engine : ResearchEngine.Engine) (env : Environment) (question : Bytes) (w : World) :
    ∀ e ∈ (finalState (ResearchEngine.research engine env question { w with events := [] })).events, Emitted e :=
  emits_of_tells (research_framed (tells_framed Emitted) engine env question) w

theorem Emitted.object {e : Json} (emitted : Emitted e) : ∃ fields, e = .obj fields := by
  cases emitted <;> exact ⟨_, rfl⟩

theorem EditEmitted.object {e : Json} (emitted : EditEmitted e) : ∃ fields, e = .obj fields := by
  cases emitted <;> exact ⟨_, rfl⟩

end CppCoder.EngineFrames
