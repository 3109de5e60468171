import Mathlib.Data.List.TakeWhile
import CppCoder.Abandonment
import CppCoder.LostUpdates

/-! The books of an edit run: every edit that an area returned is in the result once, in the order in
which the areas returned them, and one event tells of it. -/

namespace CppCoder.EditAccounts
open Support Utf8 JsonValue Program CppCoder.Types PatchApplier Session Agent EngineLoop
  EngineRuns EditEngine
open LostUpdates Abandonment

def isStart : Act → Bool
  | .started _ => true
  | _ => false

def batches : List Act → List (Task × List ProposedEdit)
  | [] => []
  | .started task :: rest => (task, returned (rest.takeWhile fun act => !isStart act)) :: batches rest
  | _ :: rest => batches rest

theorem batches_append (trace acts : List Act) (task : Task) :
    batches (trace ++ .started task :: acts) = batches trace ++ batches (.started task :: acts) := by
  induction trace with
  | nil => rfl
  | cons act rest ih =>
    cases act with
    | started other =>
      have cut : (rest ++ .started task :: acts).takeWhile (fun act => !isStart act) =
          rest.takeWhile fun act => !isStart act := by
        rw [List.takeWhile_append]
        split_ifs with whole
        · have none : (Act.started task :: acts).takeWhile (fun act => !isStart act) = [] := rfl
          rw [none, List.append_nil]
          exact (List.IsPrefix.eq_of_length (List.takeWhile_prefix _) whole).symm
        · rfl
      simp only [List.cons_append, batches, ih, cut]
    | _ => exact ih

theorem batches_none {acts : List Act} (none : ∀ act ∈ acts, isStart act = false) : batches acts = [] := by
  induction acts with
  | nil => rfl
  | cons act rest ih =>
    have later := ih fun other member => none other (List.mem_cons_of_mem _ member)
    cases act with
    | started task => simpa [isStart] using none _ List.mem_cons_self
    | _ => exact later

theorem batches_task (trace : List Act) {acts : List Act} (task : Task)
    (none : ∀ act ∈ acts, isStart act = false) :
    batches (trace ++ .started task :: acts) = batches trace ++ [(task, returned acts)] := by
  have all : acts.takeWhile (fun act => !isStart act) = acts := by
    apply List.takeWhile_eq_self_iff.2
    intro act member
    simp [none act member]
  rw [batches_append]
  simp only [batches, all, batches_none none]

def isEditEvent (e : Json) : Bool :=
  [ascii "edit_proposed", ascii "edit_applied", ascii "edit_rejected"].contains (eventName e)

def editEvents (events : List Json) : List Json := events.filter isEditEvent

theorem editEvents_append (first second : List Json) :
    editEvents (first ++ second) = editEvents first ++ editEvents second := List.filter_append _ _

theorem editEvents_told {events : List Json} (told : ∀ e ∈ events, isEditEvent e = true) :
    editEvents events = events :=
  List.filter_eq_self.2 told

theorem isEditEvent_event (name : String) (fields : List (String × Json)) :
    isEditEvent (event name fields) =
    [ascii "edit_proposed", ascii "edit_applied", ascii "edit_rejected"].contains (ascii name) := by
  unfold isEditEvent
  rw [eventName_event]

def outcomeEvents (task : Task) (outcome : ApplyOutcome) : List Json :=
  outcome.writtenPaths.map (editApplied task) ++
    outcome.rejectedPaths.map (editRejected "path escapes codebase root" task) ++
    outcome.errors.map (editRejected "write error" task)

theorem outcomeEvents_told (task : Task) (outcome : ApplyOutcome) :
    ∀ e ∈ outcomeEvents task outcome, isEditEvent e = true := by
  intro e member
  simp only [outcomeEvents, List.mem_append, List.mem_map] at member
  obtain (⟨p, -, rfl⟩ | ⟨p, -, rfl⟩) | ⟨p, -, rfl⟩ := member
  · exact (isEditEvent_event _ _).trans (by decide)
  · exact (isEditEvent_event _ _).trans (by decide)
  · exact (isEditEvent_event _ _).trans (by decide)

theorem editProposed_told (task : Task) (edits : List ProposedEdit) :
    ∀ e ∈ edits.map (editProposed task), isEditEvent e = true := by
  intro e member
  obtain ⟨edit, -, rfl⟩ := List.mem_map.1 member
  exact (isEditEvent_event _ _).trans (by decide)

/-- The outcomes of the tasks, list by list. -/
def joined (outcomes : List ApplyOutcome) : ApplyOutcome where
  writtenPaths := outcomes.flatMap ApplyOutcome.writtenPaths
  rejectedPaths := outcomes.flatMap ApplyOutcome.rejectedPaths
  errors := outcomes.flatMap ApplyOutcome.errors

/-- In dry-run mode the edits are what is gathered and proposed, and nothing is done. -/
structure Proposes (before after : World) (gathered : Gathered) : Prop where
  edits : gathered.proposedEdits = returned after.trace
  outcome : gathered.applyOutcome = {}
  disk : after.disk = before.disk
  events : editEvents after.events = (batches after.trace).flatMap fun batch => batch.2.map
    (editProposed batch.1)

/-- In apply mode each task's edits are accounted for by the lists of an outcome, and these are what is
gathered and told. -/
structure Applies (after : World) (gathered : Gathered) : Prop where
  edits : gathered.proposedEdits = []
  outcomes : ∃ outcomes, List.Forall₂ (fun batch outcome => Accounts batch.2 outcome)
    (batches after.trace) outcomes ∧
    gathered.applyOutcome = joined outcomes ∧ editEvents after.events =
      ((batches after.trace).zip outcomes).flatMap fun pair => outcomeEvents pair.1.1 pair.2

structure Booked (applying : Bool) (before after : World) (gathered : Gathered) : Prop where
  account : returned after.trace = (batches after.trace).flatMap Prod.snd
  proposes : applying = false → Proposes before after gathered
  applies : applying = true → Applies after gathered

/-- What a run says of the edits that were returned. -/
structure Accounted (applying : Bool) (before after : World) (result : EditRunResult) : Prop where
  booked : Booked applying before after ⟨result.proposedEdits, result.applyOutcome⟩
  anyEdits : result.anyEdits = true ↔ result.proposedEdits ≠ [] ∨ result.applyOutcome.writtenPaths ≠ []

/-! ### The loop -/

/-- Acts between the edits of one task and the start of the next. -/
def Mute (act : Act) : Prop := isStart act = false ∧ returnedBy act = []

theorem returned_append (first second : List Act) : returned (first ++ second) = returned first ++
    returned second :=
  List.flatMap_append

theorem returned_mute {acts : List Act} (mute : ∀ act ∈ acts, Mute act) : returned acts = [] :=
  List.flatMap_eq_nil_iff.2 fun act member => (mute act member).2

def Beside (w w' : World) : Prop :=
  w'.disk = w.disk ∧ editEvents w'.events = editEvents w.events ∧ Leaves Mute w w'

theorem Beside.refl (w : World) : Beside w w := ⟨rfl, rfl, .refl w⟩

theorem Beside.trans (a b c : World) (one : Beside a b) (two : Beside b c) : Beside a c :=
  ⟨two.1.trans one.1, two.2.1.trans one.2.1, one.2.2.trans a b c two.2.2⟩

theorem beside_record {act : Act} (mute : Mute act) : Keeps Beside (record act) :=
  fun _ => ⟨rfl, rfl, [act], rfl, by simpa using mute⟩

theorem beside_emit {shown : Json} (other : isEditEvent shown = false) : Keeps Beside (emit shown) := by
  intro w
  refine runs_emit (fun _ => ⟨rfl, ?_, .of_same rfl⟩) fun _ => Beside.refl w
  rw [editEvents_append]
  simp [editEvents, other]

theorem beside_queued (task : Task) : Keeps Beside (emit (taskQueued task)) :=
  beside_emit ((isEditEvent_event _ _).trans (by decide))

theorem beside_pushDirection (task : Task) (queue : TaskQueue.Queue) (dir : Task) :
    Keeps Beside (pushDirection task queue dir) := by
  refine Keeps.bind Beside.trans (beside_record ⟨rfl, rfl⟩) fun _ =>
    Keeps.bind Beside.trans ?_ fun _ => Keeps.pure Beside.refl _
  unfold announce
  split_ifs
  · exact beside_queued _
  · exact Keeps.pure Beside.refl _

/-- What using a finding does with the edits it offers. -/
structure Told (applying : Bool) (task : Task) (finding : EditFinding) (gathered gathered' : Gathered)
    (w w' : World) : Prop where
  acts : Leaves Mute w w'
  proposed : applying = false → w'.disk = w.disk ∧
    gathered' = { gathered with proposedEdits := gathered.proposedEdits ++ told finding } ∧
    editEvents w'.events = editEvents w.events ++ (told finding).map (editProposed task)
  applied : applying = true → ∃ outcome, Accounts (told finding) outcome ∧
    gathered'.proposedEdits = gathered.proposedEdits ∧
    gathered'.applyOutcome = joined [gathered.applyOutcome, outcome] ∧
    editEvents w'.events = editEvents w.events ++ outcomeEvents task outcome

variable {engine : Engine} {env : Environment}

theorem applyFinding_told (task : Task) (edits : List ProposedEdit) (gathered : ApplyOutcome) (w : World) :
    Runs (applyFinding engine env task edits gathered) w
      (fun outcome' w' => Leaves Mute w w' ∧ ∃ outcome, Accounts edits outcome ∧
        outcome' = joined [gathered, outcome] ∧
        editEvents w'.events = editEvents w.events ++ outcomeEvents task outcome) fun _ _ => True := by
  have applies : Runs (applyEdits env engine.root edits) w
      (fun outcome w' => Accounts edits outcome ∧ w'.trace = w.trace ∧ w'.events = w.events)
          fun _ _ => True := by
    unfold Runs applyEdits
    cases result : PatchApplier.apply engine.root env.faults edits w.disk with
    | ok outcome disk => exact ⟨apply_accounts result, rfl, rfl⟩
    | error e disk => trivial
  refine Runs.bind (applies.weaken fun outcome w1 same => Runs.bind (runs_record ?_))
  obtain ⟨accounts, trace, events⟩ := same
  refine Runs.bind ((emits_runs _ _ _).weaken fun _ w2 two => ?_)
  refine Runs.bind ((emits_runs _ _ _).weaken fun _ w3 three => ?_)
  refine Runs.bind ((emits_runs _ _ _).weaken fun _ w4 four => Runs.pure ⟨?_, outcome, accounts, ?_, ?_⟩)
  · refine ⟨[.applied edits outcome], ?_, by simp [Mute, isStart, returnedBy]⟩
    rw [four, three, two, ← trace]
  · simp [joined]
  · have grown : w4.events = w.events ++ outcomeEvents task outcome := by
      rw [four, three, two, ← events]
      simp [outcomeEvents]
    rw [grown, editEvents_append, editEvents_told (outcomeEvents_told task outcome)]

theorem settle_told (task : Task) (finding : EditFinding) (gathered : Gathered) (w : World) :
    Runs (settle engine env task finding gathered) w
      (fun gathered' w' => Told engine.config.apply task finding gathered gathered' w w')
          fun _ _ => True := by
  unfold settle
  split_ifs with offers applying
  · have offered : told finding = finding.edits := if_pos offers.1
    refine Runs.bind ((applyFinding_told task finding.edits _ w).weaken fun outcome' w' applied =>
      Runs.pure ?_)
    obtain ⟨acts, outcome, accounts, same, events⟩ := applied
    refine ⟨acts, fun dry => ?_, fun _ => ⟨outcome, offered ▸ accounts, rfl, same, events⟩⟩
    rw [applying] at dry
    cases dry
  · have offered : told finding = finding.edits := if_pos offers.1
    refine Runs.bind ((emits_runs _ _ w).weaken fun _ w' same => Runs.pure ⟨?_, fun _ => ?_, fun wet => ?_⟩)
    · exact .of_same (by rw [same])
    · rw [same, offered]
      refine ⟨rfl, rfl, ?_⟩
      rw [editEvents_append, editEvents_told (editProposed_told task finding.edits)]
    · exact absurd wet applying
  · -- nothing is offered: there is no outcome, or there are no edits
    have nothing := told_nil offers
    refine Runs.pure ⟨.refl w, fun _ => ?_, fun _ => ⟨{}, ?_, rfl, ?_, ?_⟩⟩
    · simp [nothing]
    · exact ⟨[], by simp [nothing], rfl⟩
    · simp [joined]
    · simp [outcomeEvents]

theorem Booked.task {applying : Bool} {before w w' : World} {gathered gathered' : Gathered}
    (booked : Booked applying before w gathered) {task : Task} {finding : EditFinding} {acts : List Act}
    (trace : w'.trace = w.trace ++ .started task :: acts) (none : ∀ act ∈ acts, isStart act = false)
    (offers : returned acts = told finding)
    (proposed : applying = false → w'.disk = w.disk ∧
      gathered' = { gathered with proposedEdits := gathered.proposedEdits ++ told finding } ∧
      editEvents w'.events = editEvents w.events ++ (told finding).map (editProposed task))
    (applied : applying = true → ∃ outcome, Accounts (told finding) outcome ∧
      gathered'.proposedEdits = gathered.proposedEdits ∧
      gathered'.applyOutcome = joined [gathered.applyOutcome, outcome] ∧
      editEvents w'.events = editEvents w.events ++ outcomeEvents task outcome) :
    Booked applying before w' gathered' := by
  have more : batches w'.trace = batches w.trace ++ [(task, told finding)] := by
    rw [trace, batches_task _ _ none, offers]
  have all : returned w'.trace = returned w.trace ++ told finding := by
    rw [trace, returned_append, ← offers]
    rfl
  refine ⟨?_, fun dry => ?_, fun wet => ?_⟩
  · rw [all, more, booked.account]
    simp
  · obtain ⟨disk, gathers, events⟩ := proposed dry
    obtain ⟨edits, outcome, still, told⟩ := booked.proposes dry
    refine ⟨?_, ?_, disk.trans still, ?_⟩
    · rw [gathers, all, ← edits]
    · rw [gathers, outcome]
    · rw [events, told, more]
      simp
  · obtain ⟨outcome, accounts, edits, joins, events⟩ := applied wet
    obtain ⟨nothing, outcomes, each, sum, told⟩ := booked.applies wet
    refine ⟨edits.trans nothing, outcomes ++ [outcome], ?_, ?_, ?_⟩
    · rw [more]
      exact List.rel_append each (.cons accounts .nil)
    · rw [joins, sum]
      simp [joined]
    · rw [events, told, more, List.zip_append each.length_eq]
      simp

theorem editEvents_other {name : String} {fields : List (String × Json)}
    (apart : ascii name ∉ [ascii "edit_proposed", ascii "edit_applied", ascii "edit_rejected"]) :
    editEvents [event name fields] = [] := by
  have other : [ascii "edit_proposed", ascii "edit_applied", ascii "edit_rejected"].contains
      (ascii name) = false := by
    simpa using apart
  simp only [editEvents, List.filter_cons, isEditEvent_event, other, List.filter_nil]
  rfl

theorem editEvents_complete (result : EditRunResult) : editEvents [complete result] = [] :=
  editEvents_other (by decide)

theorem returned_subs {task : Task} {fs : Support.Disk.FileSystem} {subs : List (SubRun EditFinding)}
    {finding : EditFinding} (executed : Editor.role.Executed env engine.setup task fs subs finding) :
    returned (subs.flatMap fun sub => sub.acts Editor.role task) = told finding := by
  rw [told_of_executed executed]
  unfold returned
  rw [List.flatMap_assoc]
  apply List.flatMap_congr
  intro sub _
  simp [SubRun.acts, Editor.role, returnedBy]

theorem subs_unstarted (task : Task) (subs : List (SubRun EditFinding)) :
    ∀ act ∈ subs.flatMap fun sub => sub.acts Editor.role task, isStart act = false := by
  intro act member
  obtain ⟨sub, -, listed⟩ := List.mem_flatMap.1 member
  simp only [SubRun.acts, List.mem_cons, List.not_mem_nil, or_false] at listed
  obtain rfl | rfl | rfl := listed <;> rfl

theorem process_booked (before : World) (task : Task) (queue : TaskQueue.Queue)
    (progress : Progress Gathered) {w : World}
    (booked : Booked engine.config.apply before w progress.gathered) :
    Runs ((steps engine env).process task queue progress) w
      (fun progress' w' => Booked engine.config.apply before w' progress'.gathered) fun _ _ => True := by
  refine Steps.process_rule _ (fun _ => trivial) ?_
  refine Runs.bind ((Editor.role.execute_runs env engine.setup task _).imp ?_ fun _ _ _ => trivial)
  rintro finding w1 ⟨subs, executed, adds⟩
  refine Runs.bind (runs_emit (fun _ => Runs.pure ?_) fun _ => trivial)
  refine (settle_told task finding progress.gathered _).weaken fun gathered' w2 told => ?_
  have pushes := Keeps.foldlM Beside.refl Beside.trans (beside_pushDirection task) (followUps finding)
    (queue.markVisited task.targetArea) w2
  refine pushes.imp ?_ fun _ _ _ => trivial
  rintro _ w3 ⟨disk, events, pushed, grown, mute⟩
  obtain ⟨settled, further, silent⟩ := told.acts
  have start : editEvents [taskStarted task] = [] := editEvents_other (by decide)
  have found : editEvents [editResult task finding] = [] := editEvents_other (by decide)
  have quiet : editEvents (w1.events ++ [editResult task finding]) = editEvents w.events := by
    rw [editEvents_append, found, adds.events, editEvents_append, start, List.append_nil, List.append_nil]
  refine @Booked.task _ _ _ _ _ gathered' booked task finding
    ((subs.flatMap fun sub => sub.acts Editor.role task) ++
      (.settled task (followUps finding) :: (settled ++ pushed))) ?_ ?_ ?_ ?_ ?_
  · rw [grown, further]
    simp [adds.trace, steps]
  · intro act member
    simp only [List.mem_append, List.mem_cons] at member
    obtain sub | rfl | now | later := member
    · exact subs_unstarted task subs act sub
    · rfl
    · exact (silent act now).1
    · exact (mute act later).1
  · rw [returned_append, returned_subs executed]
    have nothing : returned (.settled task (followUps finding) :: (settled ++ pushed)) = [] := by
      apply returned_mute
      intro act member
      simp only [List.mem_append, List.mem_cons] at member
      obtain rfl | now | later := member
      · exact ⟨rfl, rfl⟩
      · exact silent act now
      · exact mute act later
    rw [nothing, List.append_nil]
  · intro dry
    obtain ⟨still, gathers, tells⟩ := told.proposed dry
    refine ⟨disk.trans (still.trans adds.disk), gathers, ?_⟩
    rw [events, tells, quiet]
  · intro wet
    obtain ⟨outcome, accounts, edits, joins, tells⟩ := told.applied wet
    refine ⟨outcome, accounts, edits, joins, ?_⟩
    rw [events, tells, quiet]

/-! ### Every run -/

theorem Booked.beside {applying : Bool} {before w w' : World} {gathered : Gathered}
    (booked : Booked applying before w gathered) (disk : w'.disk = w.disk) (trace : w'.trace = w.trace)
    (events : editEvents w'.events = editEvents w.events) : Booked applying before w' gathered := by
  refine ⟨?_, fun dry => ?_, fun wet => ?_⟩
  · rw [trace]
    exact booked.account
  · obtain ⟨edits, outcome, still, told⟩ := booked.proposes dry
    exact ⟨by rw [trace]; exact edits, outcome, disk.trans still, by rw [events, trace]; exact told⟩
  · obtain ⟨nothing, outcomes, each, sum, told⟩ := booked.applies wet
    exact ⟨nothing, outcomes, by rw [trace]; exact each, sum, by rw [events, trace]; exact told⟩

theorem Booked.start (applying : Bool) {before w : World} (disk : w.disk = before.disk)
    (none : ∀ act ∈ w.trace, isStart act = false) (returns : returned w.trace = [])
    (events : editEvents w.events = []) : Booked applying before w {} := by
  have empty := batches_none none
  refine ⟨by rw [empty, returns]; rfl, fun _ => ⟨returns.symm, rfl, disk, ?_⟩,
    fun _ => ⟨rfl, [], ?_, rfl, ?_⟩⟩
  · rw [events, empty]
    rfl
  · rw [empty]
    exact .nil
  · rw [events, empty]
    rfl

theorem queueSeeds_beside (tasks : List Task) : Keeps Beside (Seeding.queueSeeds tasks) := by
  refine Keeps.foldlM Beside.refl Beside.trans (fun queue t => ?_) _ _
  have pushed : Mute (.pushed t (queue.push t).1) := ⟨rfl, rfl⟩
  exact Keeps.bind Beside.trans (beside_record pushed) fun _ =>
    Keeps.bind Beside.trans (beside_queued t) fun _ => Keeps.pure Beside.refl _

theorem explore_booked (before : World) (config : EngineConfig) (engineStart : Int) (left : Nat)
    (progress : Progress Gathered) {w : World}
    (booked : Booked engine.config.apply before w progress.gathered) :
    Runs ((steps engine env).explore env config engineStart left progress) w
      (fun ended w' => Booked engine.config.apply before w' ended.1.gathered) fun _ _ => True :=
  ((steps engine env).explore_runs (fun progress w' => Booked engine.config.apply before w'
    progress.gathered)
    (fun _ _ _ kept => kept.beside rfl rfl rfl)
    (fun progress _ task queue _ kept => process_booked before task queue progress kept) left progress w
    booked).weaken fun _ _ kept => kept.1

theorem conclude_accounted (before : World) (engineStart : Int) (progress : Progress Gathered)
    (ending : Ending) {w : World} (booked : Booked engine.config.apply before w progress.gathered) :
    Runs (conclude env engineStart progress ending) w
      (fun result w' => Accounted engine.config.apply before w' result) fun _ _ => True := by
  unfold conclude
  refine Runs.bind (runs_now (Runs.bind (runs_emit (fun _ => Runs.pure ⟨?_, ?_⟩) fun _ => trivial)))
  · refine booked.beside rfl rfl ?_
    rw [editEvents_append, editEvents_complete, List.append_nil]
  · simp

theorem editEvents_opening {client : OllamaClient.OllamaConfig} {prompt taskDescription : Bytes}
    {w w' : World} {keywords : List Bytes}
    (begun : Begun client prompt (event "task" [("task", .str taskDescription)])
      { w with trace := [], events := [] } keywords w') : editEvents w'.events = [] := by
  rw [begun.events, List.nil_append, ← List.singleton_append, editEvents_append]
  rw [editEvents_other (by decide), editEvents_other (by decide), List.append_nil]

/-- Every edit that an area returned with an outcome to offer is accounted for exactly once, in order. -/
theorem edits_accounted (engine : Engine) (env : Environment) (taskDescription : Bytes) (w : World) :
    Runs (run engine env taskDescription) { w with trace := [], events := [] }
      (fun result w' => Accounted engine.config.apply w w' result) fun _ _ => True := by
  rw [edit_opened]
  apply opened_runs
  · exact fun _ _ _ _ => trivial
  · intro keywords w' elapsed begun _ _
    refine Runs.bind (runs_emit (fun _ => Runs.pure ⟨?_, by simp⟩) fun _ => trivial)
    have blank : w'.trace = [] := begun.trace
    refine .start _ begun.disk ?_ ?_ ?_
    · simp [blank]
    · rw [blank]
      rfl
    · rw [editEvents_append, editEvents_opening begun, editEvents_complete, List.append_nil]
  · intro keywords w' engineStart seed begun _ seeds
    refine Runs.bind ((queueSeeds_beside [seed] w').imp ?_ fun _ _ _ => trivial)
    rintro queue w2 ⟨disk, events, acts, grown, mute⟩
    have blank : w2.trace = acts := by rw [grown, begun.trace]; rfl
    have booked : Booked engine.config.apply w w2 {} := by
      refine .start _ (disk.trans begun.disk) ?_ ?_ (events.trans (editEvents_opening begun))
      · rw [blank]
        exact fun act member => (mute act member).1
      · rw [blank]
        exact returned_mute mute
    refine Runs.bind ((explore_booked w _ _ _ { queue, iterations := 0, gathered := {} } booked).weaken ?_)
    rintro ⟨progress, ending⟩ w3 later
    exact conclude_accounted w _ progress ending later

end CppCoder.EditAccounts
