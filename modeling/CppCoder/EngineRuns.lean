import CppCoder.EditEngine
import CppCoder.ResearchEngine

/-! What holds of every run of either engine: which acts a task may leave on record, and how a run is
made up of the loop and of what comes before and after it. -/

namespace CppCoder.EngineRuns
open Support Utf8 JsonValue Program CppCoder.Types PatchApplier TaskQueue Session Agent EngineLoop

/-- The acts that an investigation and the use of its result leave behind. -/
def Within : Act → Prop
  | .started _ => False
  | .settled _ _ => False
  | .pushed _ _ => False
  | _ => True

/-- The acts that using a result leaves behind. -/
def Applying : Act → Prop
  | .applied _ _ => True
  | _ => False

variable {φ ρ : Type}

/-- An engine's own steps neither start nor settle nor queue tasks. -/
structure Quiet (steps : Steps φ ρ) : Prop where
  investigate : ∀ task, Keeps (Leaves Within) (steps.investigate task)
  settle : ∀ task result gathered, Keeps (Leaves Applying) (steps.settle task result gathered)

theorem research_quiet (engine : ResearchEngine.Engine) (env : Environment) (question : Bytes) :
    Quiet (ResearchEngine.steps engine env question) where
  investigate task := by
    refine keeps_bind ?_ fun raw => keeps_bind (keeps_emit _) fun _ => keeps_bind ?_ fun finding =>
      keeps_bind (keeps_emit _) fun _ => keeps_pure _
    · exact Worker.role.keeps_execute env _ task (fun _ => trivial) (fun _ _ => trivial) fun _ => trivial
    · unfold Judge.review
      split_ifs
      · exact keeps_bind (keeps_record trivial) fun _ => keeps_pure _
      · exact keeps_bind (OllamaClient.keeps_generate env _ _ _) fun _ =>
          keeps_bind (keeps_record trivial) fun _ => keeps_pure _
  settle task finding gathered := by
    change Keeps _ (ResearchEngine.settle task finding gathered)
    unfold ResearchEngine.settle
    split_ifs
    · exact keeps_bind (keeps_emit _) fun _ => keeps_pure _
    · exact keeps_pure _

theorem edit_quiet (engine : EditEngine.Engine) (env : Environment) :
    Quiet (EditEngine.steps engine env) where
  investigate task := by
    refine keeps_bind ?_ fun finding => keeps_bind (keeps_emit _) fun _ => keeps_pure _
    exact Editor.role.keeps_execute env _ task (fun _ => trivial) (fun _ _ => trivial) fun _ => trivial
  settle task finding gathered := by
    change Keeps _ (EditEngine.settle engine env task finding gathered)
    unfold EditEngine.settle
    split_ifs
    · refine keeps_bind ?_ fun _ => keeps_pure _
      refine keeps_bind (keeps_applyEdits env _ _) fun applied => keeps_bind (keeps_record trivial) fun _ =>
        keeps_bind ?_ fun _ => keeps_bind ?_ fun _ => keeps_bind ?_ fun _ => keeps_pure _
      · exact keeps_forM _ fun _ => keeps_emit _
      · exact keeps_forM _ fun _ => keeps_emit _
      · exact keeps_forM _ fun _ => keeps_emit _
    · exact keeps_bind (keeps_forM _ fun _ => keeps_emit _) fun _ => keeps_pure _
    · exact keeps_pure _

theorem mem_followed {partly : Prop} [Decidable partly] {directions : List Task} {d : Task}
    (followed : d ∈ if partly then directions else []) : d ∈ directions := by
  split_ifs at followed
  · exact followed
  · cases followed

structure Seeds (scanner : CodebaseScanner.Scanner) (fs : Support.Disk.FileSystem) (goal : Bytes)
    (keywords : List Bytes) (seed : Task) : Prop where
  depth : seed.depth = 0
  repeatable : seed.repeatable = true
  targets : seed.repeatTargets = Seeding.candidateAreas scanner fs keywords
  some : seed.repeatTargets ≠ []
  goal : seed.researchGoal = goal
  id : Valid seed.id
  targetArea : Valid seed.targetArea
  successCriteria : Valid seed.successCriteria
  parentId : seed.parentId = []

theorem seedInitialTasks_seeds {scanner : CodebaseScanner.Scanner} {fs : Support.Disk.FileSystem}
    {id successCriteria : String} {goal : Bytes} {keywords : List Bytes} {seed : Task}
    (seeds : Seeding.seedInitialTasks scanner fs id successCriteria goal keywords = [seed]) :
    Seeds scanner fs goal keywords seed := by
  unfold Seeding.seedInitialTasks at seeds
  dsimp only at seeds
  split_ifs at seeds with some
  cases seeds
  refine ⟨rfl, rfl, rfl, some, rfl, valid_ascii _, ?_, valid_ascii _, rfl⟩
  exact ((valid_ascii _).append (valid_decimal _)).append (valid_ascii _)

theorem Seeds.areas {scanner : CodebaseScanner.Scanner} {fs : Support.Disk.FileSystem} {goal : Bytes}
    {keywords : List Bytes} {seed : Task} (seeds : Seeds scanner fs goal keywords seed) :
    areas seed = seed.repeatTargets ∧ seed.repeatTargets.Nodup := by
  refine ⟨if_neg (by simp [seeds.repeatable, seeds.some]), ?_⟩
  rw [seeds.targets]
  exact Seeding.candidateAreas_nodup _ _ _

theorem seedInitialTasks_cases (scanner : CodebaseScanner.Scanner) (fs : Support.Disk.FileSystem)
    (id successCriteria : String) (goal : Bytes) (keywords : List Bytes) :
    Seeding.seedInitialTasks scanner fs id successCriteria goal keywords = [] ∨
      ∃ seed, Seeding.seedInitialTasks scanner fs id successCriteria goal keywords = [seed] := by
  unfold Seeding.seedInitialTasks
  dsimp only
  split_ifs
  · exact .inl rfl
  · exact .inr ⟨_, rfl⟩

/-! ### How a run begins -/

section Opening
variable {α : Type} (env : Environment) (client : OllamaClient.OllamaConfig) (maxCount : Nat)
  (prompt : Bytes)
  (first : Json) (scanner : CodebaseScanner.Scanner) (id successCriteria : String) (goal : Bytes)
  (unseeded : Int → α) (complete : α → Json) (onward : Int → List Task → Prog α)

/-- What both engines do before and instead of their loops. -/
def opened : Prog α := do
  let engineStart ← now env
  emit first
  let keywords ← Seeding.extractKeywords env client maxCount prompt goal
  emit (event "keywords_extracted" [("keywords", .arr (keywords.map .str))])
  let fs ← (fun w : World => w.disk.fs) <$> get
  if Seeding.seedInitialTasks scanner fs id successCriteria goal keywords = [] then
    let stop ← now env
    emit (complete (unseeded (stop - engineStart)))
    return unseeded (stop - engineStart)
  else onward engineStart (Seeding.seedInitialTasks scanner fs id successCriteria goal keywords)

structure Begun (w : World) (keywords : List Bytes) (w' : World) : Prop where
  asked : (OllamaClient.requestBody client prompt []).dumpable = true
  words : ∀ k ∈ keywords, Valid k
  trace : w'.trace = w.trace
  disk : w'.disk = w.disk
  calls : w'.calls = w.calls + 1
  events : w'.events = w.events ++
    [first, event "keywords_extracted" [("keywords", .arr (keywords.map .str))]]

variable {env client maxCount prompt first scanner id successCriteria goal unseeded complete onward}
variable {done : α → World → Prop} {failed : Exn → World → Prop}

theorem opened_runs {w : World}
    (dirty : ∀ w', w'.trace = w.trace → w'.disk = w.disk →
      ¬ (first.dumpable = true ∧ (OllamaClient.requestBody client prompt []).dumpable = true) →
        failed .type w')
    (barren : ∀ keywords w' elapsed, Begun client prompt first w keywords w' →
      keywords = Seeding.extracted env.parser maxCount goal (env.http w.calls) →
      Seeding.seedInitialTasks scanner w'.disk.fs id successCriteria goal keywords = [] →
      Runs (emit (complete (unseeded elapsed)) >>= fun _ => pure (unseeded elapsed)) w' done failed)
    (started : ∀ keywords w' engineStart seed, Begun client prompt first w keywords w' →
      keywords = Seeding.extracted env.parser maxCount goal (env.http w.calls) →
      Seeding.seedInitialTasks scanner w'.disk.fs id successCriteria goal keywords = [seed] →
      Runs (onward engineStart [seed]) w' done failed) :
    Runs (opened env client maxCount prompt first scanner id successCriteria goal unseeded
      complete onward) w
      done failed := by
  unfold opened
  refine Runs.bind (runs_now (Runs.bind (runs_emit (fun shown => Runs.bind ?_) fun unshown => ?_)))
  · apply (Seeding.extractKeywords_runs env client maxCount prompt goal _).imp
    · rintro keywords w1 ⟨asked, found, words, adds, calls⟩
      have legible : (event "keywords_extracted" [("keywords", .arr (keywords.map .str))]).dumpable
          = true := by
        rw [event_dumpable]
        simpa using words
      refine Runs.bind (runs_emit (fun _ => Runs.bind (runs_get ?_)) fun illegible =>
        absurd legible illegible)
      have begun : Begun client prompt first w keywords
          { w1 with events := w1.events ++
              [event "keywords_extracted" [("keywords", .arr (keywords.map .str))]] } := by
        refine ⟨asked, words, ?_, adds.disk, calls, ?_⟩
        · simp [adds.trace]
        · simp [adds.events]
      split_ifs with none
      · refine Runs.bind (runs_now (barren keywords _ _ ?_ found none))
        exact ⟨begun.asked, begun.words, begun.trace, begun.disk, begun.calls, begun.events⟩
      · obtain ⟨seed, seeds⟩ := (seedInitialTasks_cases _ _ _ _ _ _).resolve_left none
        rw [seeds]
        exact started keywords _ _ seed begun found seeds
    · rintro e w1 ⟨type, unasked, adds⟩
      rw [type]
      exact dirty w1 (by simp [adds.trace]) adds.disk fun both => unasked both.2
  · exact dirty _ rfl rfl fun both => unshown both.1

end Opening

theorem research_opened (engine : ResearchEngine.Engine) (env : Environment) (question : Bytes) :
    ResearchEngine.research engine env question = opened env engine.client engine.config.maxInitialKeywords
      (ResearchEngine.keywordPrompt engine.config.maxInitialKeywords question)
      (event "question" [("question", .str question)]) engine.scanner "seed"
      "Found information in the code that directly and fully answers the question above." question
      (fun elapsed => {
        terminationReason :=
          ascii "no initial research direction found from question keywords (question keywords not present in codebase knowledge)"
        wallClock := toMilliseconds elapsed })
      ResearchEngine.complete (fun engineStart seedTasks => do
        let queue ← Seeding.queueSeeds seedTasks
        let (progress, ending) ← (ResearchEngine.steps engine env question).explore env
          engine.config engineStart
          engine.config.maxIterations.toNat { queue, iterations := 0, gathered := [] }
        ResearchEngine.conclude engine env question engineStart progress ending) := rfl

theorem edit_opened (engine : EditEngine.Engine) (env : Environment) (taskDescription : Bytes) :
    EditEngine.run engine env taskDescription = opened env engine.client engine.config.maxInitialKeywords
      (EditEngine.keywordPrompt engine.config.maxInitialKeywords taskDescription)
      (event "task" [("task", .str taskDescription)]) engine.scanner "edit-seed"
      "Made the change described in the task, fully and correctly, across every file that needed it." taskDescription
      (fun elapsed => {
        terminationReason :=
          ascii "no initial edit target found from task keywords (task keywords not present in codebase)"
        wallClock := toMilliseconds elapsed })
      EditEngine.complete (fun engineStart seedTasks => do
        let queue ← Seeding.queueSeeds seedTasks
        let (progress, ending) ← (EditEngine.steps engine env).explore env
          engine.config.toEngineConfig engineStart
          engine.config.maxIterations.toNat { queue, iterations := 0, gathered := {} }
        EditEngine.conclude env engineStart progress ending) := rfl

def cutShort : List Bytes := [ascii "max iterations reached", ascii "wall clock budget exhausted"]

theorem answerFrom_runs (engine : ResearchEngine.Engine) (env : Environment) (question reason : Bytes)
    (result : ResearchEngine.ResearchResult) (w : World) :
    Runs (ResearchEngine.answerFrom engine env question reason result) w
      (fun result' w' => w'.trace = w.trace ∧ (reason ≠ [] → result'.terminationReason = reason))
      fun _ w' => w'.trace = w.trace := by
  unfold ResearchEngine.answerFrom
  split
  · have synthesis : Keeps (Leaves fun _ => False)
        (ResearchEngine.synthesizeAnswer env engine.client question result.successfulFindings) := by
      refine keeps_bind (OllamaClient.keeps_generate env _ _ _) fun response => ?_
      cases response <;> exact keeps_pure _
    refine Runs.bind ((synthesis w).imp ?_ fun _ w' leaves => trace_of_silent leaves)
    intro answer w' leaves
    have still := trace_of_silent leaves
    exact Runs.bind (runs_emit (fun _ => Runs.pure ⟨still, fun given => if_neg given⟩) fun _ => still)
  · exact Runs.pure ⟨rfl, fun given => if_neg given⟩

theorem research_conclude_runs (engine : ResearchEngine.Engine) (env : Environment) (question : Bytes)
    (engineStart : Int) (progress : Progress (List Finding)) (ending : Ending) (w : World) :
    Runs (ResearchEngine.conclude engine env question engineStart progress ending) w
      (fun result w' => w'.trace = w.trace ∧ (result.terminationReason ∉ cutShort → ending = .drained))
      fun _ w' => w'.trace = w.trace := by
  unfold ResearchEngine.conclude
  refine Runs.bind (runs_now (Runs.bind ((answerFrom_runs engine env question _ _ _).weaken ?_)))
  rintro result w' ⟨still, reason⟩
  refine Runs.bind (runs_emit (fun _ => Runs.pure ⟨still, fun other => ?_⟩) fun _ => still)
  cases ending with
  | drained => rfl
  | maxIterations =>
    rw [reason (by decide)] at other
    exact absurd List.mem_cons_self other
  | wallClock =>
    rw [reason (by decide)] at other
    exact absurd (List.mem_cons_of_mem _ List.mem_cons_self) other

theorem edit_conclude_runs (env : Environment) (engineStart : Int) (progress : Progress EditEngine.Gathered)
    (ending : Ending) (w : World) :
    Runs (EditEngine.conclude env engineStart progress ending) w
      (fun result w' => w'.trace = w.trace ∧ w'.disk = w.disk ∧
        (result.terminationReason ∉ cutShort → ending = .drained))
      fun _ w' => w'.trace = w.trace ∧ w'.disk = w.disk := by
  unfold EditEngine.conclude
  refine Runs.bind (runs_now
    (Runs.bind (runs_emit (fun _ => Runs.pure ⟨rfl, rfl, fun other => ?_⟩) fun _ => ⟨rfl, rfl⟩)))
  cases ending with
  | drained => rfl
  | maxIterations => exact absurd List.mem_cons_self other
  | wallClock => exact absurd (List.mem_cons_of_mem _ List.mem_cons_self) other

/-- The first task of a research run, if there is one: over what matches the keywords of the first reply. -/
def researchSeeds (engine : ResearchEngine.Engine) (env : Environment) (question : Bytes) (w : World) :
    List Task :=
  ResearchEngine.seeds engine question w.disk.fs
    (Seeding.extracted env.parser engine.config.maxInitialKeywords question (env.http w.calls))

def editSeeds (engine : EditEngine.Engine) (env : Environment) (taskDescription : Bytes) (w : World) :
    List Task :=
  EditEngine.seeds engine taskDescription w.disk.fs
    (Seeding.extracted env.parser engine.config.maxInitialKeywords taskDescription (env.http w.calls))

/-- A run that finds no area to start from does nothing; any other is the loop from one seed on. What the
loop makes of the record, and whether it drained the queue, is what the run makes of it. -/
theorem research_runs {good whole : List Act → Prop} (engine : ResearchEngine.Engine) (env : Environment)
    (question : Bytes) {w : World} (blank : w.trace = []) (nothing : good [])
    (barren : researchSeeds engine env question w = [] → whole [])
    (loop : ∀ (w' : World) seed engineStart, w'.trace = [] → w'.disk = w.disk →
      researchSeeds engine env question w = [seed] →
      Runs (Seeding.queueSeeds [seed]) w' (fun queue w'' =>
        Runs ((ResearchEngine.steps engine env question).explore env engine.config engineStart
          engine.config.maxIterations.toNat { queue, iterations := 0, gathered := [] }) w''
          (fun ended w3 => good w3.trace ∧ (ended.2 = .drained → whole w3.trace)) fun _ w3 => good w3.trace)
        fun _ w'' => good w''.trace) :
    Runs (ResearchEngine.research engine env question) w
      (fun result w' => good w'.trace ∧ (result.terminationReason ∉ cutShort → whole w'.trace))
      fun _ w' => good w'.trace := by
  have unseeded : ∀ w' : World, w'.trace = [] → good w'.trace :=
    fun w' none => by rw [none]; exact nothing
  rw [research_opened]
  apply opened_runs
  · intro w' still _ _
    exact unseeded w' (still.trans blank)
  · intro keywords w' elapsed begun found none
    have still := begun.trace.trans blank
    rw [found, begun.disk] at none
    refine Runs.bind (runs_emit (fun _ => Runs.pure ?_) fun _ => unseeded _ still)
    change good w'.trace ∧ (_ → whole w'.trace)
    rw [still]
    exact ⟨nothing, fun _ => barren none⟩
  · intro keywords w' engineStart seed begun found seeds
    rw [found, begun.disk] at seeds
    have search := loop w' seed engineStart (begun.trace.trans blank) begun.disk seeds
    refine Runs.bind (search.weaken fun queue w2 search => Runs.bind (search.weaken ?_))
    rintro ⟨progress, ending⟩ w3 ⟨found, drained⟩
    apply (research_conclude_runs engine env question _ progress ending w3).imp
    · rintro result w4 ⟨same, reason⟩
      rw [same]
      exact ⟨found, fun other => drained (reason other)⟩
    · rintro e w4 same
      rw [same]
      exact found

theorem edit_runs {good whole : DiskState → List Act → Prop} (engine : EditEngine.Engine)
    (env : Environment) (taskDescription : Bytes) {w : World} (blank : w.trace = [])
    (nothing : good w.disk [])
    (barren : editSeeds engine env taskDescription w = [] → whole w.disk [])
    (loop : ∀ (w' : World) seed engineStart, w'.trace = [] → w'.disk = w.disk →
      editSeeds engine env taskDescription w = [seed] →
      Runs (Seeding.queueSeeds [seed]) w' (fun queue w'' =>
        Runs ((EditEngine.steps engine env).explore env engine.config.toEngineConfig engineStart
          engine.config.maxIterations.toNat { queue, iterations := 0, gathered := {} }) w''
          (fun ended w3 => good w3.disk w3.trace ∧ (ended.2 = .drained → whole w3.disk w3.trace))
          fun _ w3 => good w3.disk w3.trace)
        fun _ w'' => good w''.disk w''.trace) :
    Runs (EditEngine.run engine env taskDescription) w
      (fun result w' => good w'.disk w'.trace ∧
        (result.terminationReason ∉ cutShort → whole w'.disk w'.trace))
      fun _ w' => good w'.disk w'.trace := by
  have unseeded : ∀ w' : World, w'.trace = [] → w'.disk = w.disk → good w'.disk w'.trace := by
    intro w' none same
    rw [none, same]
    exact nothing
  rw [edit_opened]
  apply opened_runs
  · intro w' still disk _
    exact unseeded w' (still.trans blank) disk
  · intro keywords w' elapsed begun found none
    have still := begun.trace.trans blank
    rw [found, begun.disk] at none
    refine Runs.bind (runs_emit (fun _ => Runs.pure ?_) fun _ => unseeded _ still begun.disk)
    change good w'.disk w'.trace ∧ (_ → whole w'.disk w'.trace)
    rw [still, begun.disk]
    exact ⟨nothing, fun _ => barren none⟩
  · intro keywords w' engineStart seed begun found seeds
    rw [found, begun.disk] at seeds
    have search := loop w' seed engineStart (begun.trace.trans blank) begun.disk seeds
    refine Runs.bind (search.weaken fun queue w2 search => Runs.bind (search.weaken ?_))
    rintro ⟨progress, ending⟩ w3 ⟨found, drained⟩
    apply (edit_conclude_runs env _ progress ending w3).imp
    · rintro result w4 ⟨trace, disk, reason⟩
      rw [trace, disk]
      exact ⟨found, fun other => drained (reason other)⟩
    · rintro e w4 ⟨trace, disk⟩
      rw [trace, disk]
      exact found

theorem research_always {good : List Act → Prop} (engine : ResearchEngine.Engine) (env : Environment)
    (question : Bytes) {w : World} (blank : w.trace = []) (nothing : good [])
    (loop : ∀ (w' : World) keywords seed engineStart, w'.trace = [] → w'.disk = w.disk →
      ResearchEngine.seeds engine question w'.disk.fs keywords = [seed] →
      Runs (Seeding.queueSeeds [seed]) w' (fun queue w'' =>
        Runs ((ResearchEngine.steps engine env question).explore env engine.config engineStart
          engine.config.maxIterations.toNat { queue, iterations := 0, gathered := [] }) w''
          (fun _ w3 => good w3.trace) fun _ w3 => good w3.trace)
        fun _ w'' => good w''.trace) :
    good (finalState (ResearchEngine.research engine env question w)).trace := by
  refine ((@research_runs good (fun _ => True) engine env question w blank nothing (fun _ => trivial)
    ?_).weaken fun _ _ kept => kept.1).final
  intro w' seed engineStart still disk seeds
  rw [researchSeeds, ← disk] at seeds
  exact (loop w' _ seed engineStart still disk seeds).weaken fun queue w'' search =>
    search.weaken fun _ _ kept => ⟨kept, fun _ => trivial⟩

theorem edit_always {good : DiskState → List Act → Prop} (engine : EditEngine.Engine) (env : Environment)
    (taskDescription : Bytes) {w : World} (blank : w.trace = []) (nothing : good w.disk [])
    (loop : ∀ (w' : World) keywords seed engineStart, w'.trace = [] → w'.disk = w.disk →
      EditEngine.seeds engine taskDescription w'.disk.fs keywords = [seed] →
      Runs (Seeding.queueSeeds [seed]) w' (fun queue w'' =>
        Runs ((EditEngine.steps engine env).explore env engine.config.toEngineConfig engineStart
          engine.config.maxIterations.toNat { queue, iterations := 0, gathered := {} }) w''
          (fun _ w3 => good w3.disk w3.trace) fun _ w3 => good w3.disk w3.trace)
        fun _ w'' => good w''.disk w''.trace) :
    good (finalState (EditEngine.run engine env taskDescription w)).disk
      (finalState (EditEngine.run engine env taskDescription w)).trace := by
  refine @Runs.final _ _ _ _ _ (fun w' : World => good w'.disk w'.trace)
    ((@edit_runs good (fun _ _ => True) engine env taskDescription w blank nothing (fun _ => trivial)
      ?_).weaken fun _ _ kept => kept.1)
  intro w' seed engineStart still disk seeds
  rw [editSeeds, ← disk] at seeds
  exact (loop w' _ seed engineStart still disk seeds).weaken fun queue w'' search =>
    search.weaken fun _ _ kept => ⟨kept, fun _ => trivial⟩

end CppCoder.EngineRuns
