import CppCoder.EngineRuns
import CppCoder.Merging
import CppCoder.LastEdits
import CppCoder.Samples

/-! Whether a file that is shown to the editor has the edits that were returned before. A task's edits
are written when all its areas have been gone through, so an area does not see those of the areas
before it. -/

namespace CppCoder.LostUpdates
open Support Utf8 Paths Disk FileSystem Program CppCoder.Types PatchApplier CodebaseScanner Session
  Agent EngineLoop EngineRuns
open Merging LastEdits

def told (finding : EditFinding) : List ProposedEdit :=
  if finding.outcome = .success ∨ finding.outcome = .partialWithDirections then finding.edits else []

theorem told_nil {finding : EditFinding} (offers : ¬ ((finding.outcome = .success ∨
    finding.outcome = .partialWithDirections) ∧ finding.edits ≠ [])) : told finding = [] := by
  unfold told
  split_ifs with outcome
  · by_contra edits
    exact offers ⟨outcome, edits⟩
  · rfl

def returnedBy : Act → List ProposedEdit
  | .edited finding => told finding
  | _ => []

def writtenBy : Act → List ProposedEdit
  | .applied edits _ => edits
  | _ => []

/-- The edits that the model returned, area by area. -/
def returned (trace : List Act) : List ProposedEdit := trace.flatMap returnedBy

def written (trace : List Act) : List ProposedEdit := trace.flatMap writtenBy

def underway (trace : List Act) : List ProposedEdit :=
  trace.foldl (fun edits act => match act with
    | .started _ => []
    | act => edits ++ returnedBy act) []

/-- Every file is shown with the content of the last edit to it that was returned before, if there is one.
The tree `fs` tells which file an edit goes to. -/
def ShowsLast (root : Path) (fs : FileSystem) (trace : List Act) : Prop :=
  ∀ before area shown, before ++ [.scanned area shown] <+: trace → ∀ source ∈ shown.places,
    ∀ edit, lastTo root fs source.1 (returned before) = some edit → source.2 = edit.newContent

/-- To write what the task under way has pending would leave every file that is shown as it is. -/
def PendingSpares (root : Path) (fs : FileSystem) (trace : List Act) : Prop :=
  ∀ before area shown, before ++ [.scanned area shown] <+: trace → ∀ source ∈ shown.places,
    contentAfter root fs source (underway before) = source.2

/-- All edits that were tried were inside the root and written. -/
def Flawless (trace : List Act) : Prop :=
  ∀ edits outcome, .applied edits outcome ∈ trace → outcome.rejectedPaths = [] ∧ outcome.errors = []

theorem Flawless.before {trace acts : List Act} (flawless : Flawless (trace ++ acts)) : Flawless trace :=
  fun edits outcome member => flawless edits outcome (List.mem_append_left acts member)

/-! ### The account of a run -/

section Account
variable {root : Path} {fs fs' : FileSystem} {trace : List Act} {pending : List ProposedEdit}

/-- A scan was of an earlier tree, with what was written by then; the rest is the current task's. -/
def Seen (root : Path) (fs : FileSystem) (before : List Act) (shown : Shown) : Prop :=
  ∃ fs₀ : FileSystem, Grows fs₀ fs ∧ Holds root fs₀ (written before) ∧
    (∀ source ∈ shown.places, fs₀.kind source.1 = some (.leaf (.file source.2 true))) ∧
    returned before = written before ++ underway before

theorem Seen.last_iff {before : List Act} {shown : Shown} (seen : Seen root fs before shown)
    {source : Loc × Bytes} (member : source ∈ shown.places) :
    (∀ edit, lastTo root fs source.1 (returned before) = some edit → source.2 = edit.newContent) ↔
      contentAfter root fs source (underway before) = source.2 := by
  obtain ⟨fs₀, grows, holds, files, account⟩ := seen
  unfold contentAfter
  rw [account, lastTo_append]
  cases lastTo root fs source.1 (underway before) with
  | some edit => simp [eq_comm]
  | none =>
    refine iff_of_true (fun edit found => ?_) rfl
    rw [Option.none_or, holds.lastTo_eq grows] at found
    exact holds.latest _ edit _ _ found (files source member)

def Consistent (root : Path) (fs : FileSystem) (trace : List Act) : Prop :=
  ∀ before area shown, before ++ [.scanned area shown] <+: trace → Seen root fs before shown

theorem Consistent.showsLast_iff (consistent : Consistent root fs trace) :
    ShowsLast root fs trace ↔ PendingSpares root fs trace :=
  forall₃_congr fun _ _ _ => forall_congr' fun here => forall₂_congr fun _ member =>
    (consistent _ _ _ here).last_iff member

theorem Consistent.grows (consistent : Consistent root fs trace) (grows : Grows fs fs') :
    Consistent root fs' trace := by
  intro before area shown here
  obtain ⟨fs₀, earlier, rest⟩ := consistent before area shown here
  exact ⟨fs₀, earlier.trans grows, rest⟩

theorem Consistent.snoc (consistent : Consistent root fs trace) {act : Act}
    (scanned : ∀ area shown, act = .scanned area shown → Seen root fs trace shown) :
    Consistent root fs (trace ++ [act]) := by
  intro before area shown here
  rcases List.prefix_concat_iff.1 here with whole | earlier
  · obtain ⟨rfl, same⟩ := List.append_inj' whole rfl
    exact scanned area shown (List.cons.inj same).1.symm
  · exact consistent before area shown earlier

/-- The books of a run: what was returned is what was written, and what is pending. -/
structure Ledger (root : Path) (fs : FileSystem) (trace : List Act) (pending : List ProposedEdit) :
    Prop where
  consistent : Consistent root fs trace
  holds : Holds root fs (written trace)
  account : returned trace = written trace ++ pending

theorem Ledger.empty (root : Path) (fs : FileSystem) : Ledger root fs [] [] := by
  refine ⟨fun before area shown here => ?_, .nil root fs, rfl⟩
  simp at here

theorem Ledger.snoc (ledger : Ledger root fs trace pending) (act : Act)
    (blind : ∀ area shown, act ≠ .scanned area shown) (still : writtenBy act = []) :
        Ledger root fs (trace ++ [act]) (pending ++ returnedBy act) := by
  have same : written (trace ++ [act]) = written trace := by simp [written, still]
  refine ⟨ledger.consistent.snoc fun area shown scan => absurd scan (blind area shown), ?_, ?_⟩
  · rw [same]
    exact ledger.holds
  · rw [same, ← List.append_assoc, ← ledger.account]
    simp [returned]

theorem Ledger.applied (ledger : Ledger root fs trace pending) (grows : Grows fs fs')
    (holds : Holds root fs' (written trace ++ pending)) (outcome : ApplyOutcome) :
    Ledger root fs' (trace ++ [.applied pending outcome]) [] := by
  have more : written (trace ++ [.applied pending outcome]) = written trace ++ pending := by
    simp [written, writtenBy]
  refine ⟨(ledger.consistent.grows grows).snoc (by simp), ?_, ?_⟩
  · rw [more]
    exact holds
  · rw [more, List.append_nil, ← ledger.account]
    simp [returned, returnedBy]

abbrev Ready (root : Path) (fs : FileSystem) (trace : List Act) : Prop :=
    Ledger root fs trace (underway trace)

theorem underway_append (trace acts : List Act) : underway (trace ++ acts) =
    acts.foldl (fun edits act => match act with
    | .started _ => []
    | act => edits ++ returnedBy act) (underway trace) := List.foldl_append

theorem Ledger.started (ledger : Ledger root fs trace []) (task : Task) :
    Ready root fs (trace ++ [.started task]) := by
  have next := ledger.snoc (.started task) (by simp) rfl
  rwa [Ready, underway_append]

theorem Ready.scanned (ready : Ready root fs trace) (area : Bytes) {shown : Shown}
    (files : ∀ source ∈ shown.places, fs.kind source.1 = some (.leaf (.file source.2 true))) :
    Ready root fs (trace ++ [.scanned area shown]) := by
  have same : written (trace ++ [.scanned area shown]) = written trace := by simp [written, writtenBy]
  refine ⟨ready.consistent.snoc ?_, ?_, ?_⟩
  · rintro area' shown' scan
    cases scan
    exact ⟨fs, .refl fs, ready.holds, files, ready.account⟩
  · rw [same]
    exact ready.holds
  · rw [same, underway_append]
    simpa [returned, returnedBy] using ready.account

theorem scanShown_files (scanner : Scanner) (fs : FileSystem) (area : Bytes) (tokenBudget : UInt64) :
    ∀ source ∈ (scanner.scanShown fs area tokenBudget).places,
      fs.kind source.1 = some (.leaf (.file source.2 true)) := by
  intro source member
  have read := (scanShown_accounts area tokenBudget).places.subset member
  obtain ⟨entry, -, opened⟩ := List.mem_filterMap.1 read
  exact (readEntry_eq_some.1 opened).2

theorem Ready.investigating (ready : Ready root fs trace) (task : Task) (area : Bytes) (scanner : Scanner)
    (tokenBudget : UInt64) : Ready root fs
      (trace ++ [.investigating task area, .scanned area (scanner.scanShown fs area tokenBudget)]) := by
  have first : Ready root fs (trace ++ [.investigating task area]) := by
    have next := ready.snoc (.investigating task area) (by simp) rfl
    rwa [Ready, underway_append]
  have second := first.scanned area (scanShown_files scanner fs area tokenBudget)
  rwa [List.append_assoc] at second

theorem Ready.subs (ready : Ready root fs trace) {env : Environment} {setup : Setup} {task : Task}
    {subs : List (SubRun EditFinding)} (each : ∀ sub ∈ subs, sub.Sound Editor.role env setup task fs) :
    Ready root fs (trace ++ subs.flatMap fun sub => sub.acts Editor.role task) := by
  induction subs generalizing trace with
  | nil => simpa using ready
  | cons sub rest ih =>
    have scan := ready.investigating task sub.area setup.scanner setup.tokenBudget
    rw [← (each sub List.mem_cons_self).scanned] at scan
    have answered : Ready root fs (trace ++ sub.acts Editor.role task) := by
      have next := scan.snoc (.edited sub.finding) (by simp) rfl
      rw [List.append_assoc] at next
      rw [Ready, underway_append]
      rw [underway_append] at next
      exact next
    have later := ih answered fun other member => each other (List.mem_cons_of_mem _ member)
    rwa [List.append_assoc, ← List.flatMap_cons] at later

end Account

/-! ### A task -/

theorem underway_acts (trace : List Act) (task : Task) (subs : List (SubRun EditFinding)) :
    underway (trace ++ .started task :: subs.flatMap fun sub => sub.acts Editor.role task) =
      subs.flatMap fun sub => told sub.finding := by
  rw [underway_append, List.foldl_cons]
  induction subs using List.reverseRecOn with
  | nil => rfl
  | append_singleton subs sub ih =>
    rw [List.flatMap_append, List.flatMap_append, List.foldl_append, ih]
    simp [SubRun.acts, Editor.role, returnedBy]

theorem told_eq (finding : EditFinding) :
    told finding = if editor.verdict finding = .nothing then [] else finding.edits := by
  change told finding = if ofEditor finding.outcome = .nothing then [] else finding.edits
  unfold told
  cases finding.outcome <;> rfl

theorem edits_foldl (area : Bytes) (subs : List (SubRun EditFinding)) :
    (subs.foldl (fun merged sub => Editor.mergeSub merged sub.area sub.finding)
      { areaInvestigated := area }).edits = subs.flatMap fun sub => told sub.finding := by
  induction subs using List.reverseRecOn with
  | nil => rfl
  | append_singleton subs sub ih =>
    rw [List.foldl_append, List.flatMap_append, List.flatMap_singleton, ← ih]
    rfl

theorem told_of_executed {env : Environment} {setup : Setup} {task : Task} {fs : FileSystem}
    {subs : List (SubRun EditFinding)} {finding : EditFinding}
    (executed : Editor.role.Executed env setup task fs subs finding) :
    told finding = subs.flatMap fun sub => told sub.finding := by
  have verdict := (merged_of_executed editor executed).nothing
  have combines := executed.combines
  unfold Role.Combines at combines
  split_ifs at combines with single
  · obtain ⟨sub, rfl, rfl⟩ := List.map_eq_singleton_iff.1 combines
    rw [List.flatMap_singleton]
  · have edits : finding.edits = subs.flatMap fun sub => told sub.finding := by
      obtain ⟨duration, rfl⟩ := combines
      exact edits_foldl task.targetArea subs
    rw [told_eq]
    split_ifs with nothing
    · have none : ∀ sub ∈ subs, told sub.finding = [] := fun sub member => by
        rw [told_eq, if_pos (verdict.1 nothing sub member)]
      exact (List.flatMap_eq_nil_iff.2 none).symm
    · exact edits

def Good (root : Path) (w : World) : Prop := Flawless w.trace → Consistent root w.disk.fs w.trace

def Between (root : Path) (w : World) : Prop := Flawless w.trace → Ledger root w.disk.fs w.trace []

/-- Acts that are about the queue only. -/
def Inert : Act → Prop
  | .settled _ _ => True
  | .pushed _ _ => True
  | _ => False

/-- A program that leaves the tree alone and adds acts about the queue only. -/
def Idle (w w' : World) : Prop := w'.disk = w.disk ∧ Leaves Inert w w'

theorem Idle.refl (w : World) : Idle w w := ⟨rfl, .refl w⟩

theorem Idle.trans (a b c : World) (one : Idle a b) (two : Idle b c) : Idle a c :=
  ⟨two.1.trans one.1, one.2.trans a b c two.2⟩

theorem idle_emit (shown : JsonValue.Json) : Keeps Idle (emit shown) :=
  fun w => runs_emit (fun _ => ⟨rfl, .of_same rfl⟩) fun _ => Idle.refl w

theorem idle_record {act : Act} (inert : Inert act) : Keeps Idle (record act) :=
  fun _ => ⟨rfl, [act], rfl, by simpa using inert⟩

theorem idle_pushDirection (task : Task) (queue : TaskQueue.Queue) (dir : Task) :
    Keeps Idle (pushDirection task queue dir) := by
  refine Keeps.bind Idle.trans (idle_record trivial) fun _ => Keeps.bind Idle.trans ?_ fun _ =>
    Keeps.pure Idle.refl _
  unfold announce
  split_ifs
  · exact idle_emit _
  · exact Keeps.pure Idle.refl _

theorem Ledger.inert {root : Path} {fs : FileSystem} {trace acts : List Act} {pending : List ProposedEdit}
    (ledger : Ledger root fs trace pending) (inert : ∀ act ∈ acts, Inert act) :
    Ledger root fs (trace ++ acts) pending := by
  induction acts generalizing trace with
  | nil => simpa using ledger
  | cons act rest ih =>
    have here := inert act List.mem_cons_self
    have next : Ledger root fs (trace ++ [act]) pending := by
      cases act with
      | settled task followUps =>
        simpa [returnedBy] using ledger.snoc (.settled task followUps) (by simp) rfl
      | pushed task accepted => simpa [returnedBy] using ledger.snoc (.pushed task accepted) (by simp) rfl
      | _ => exact here.elim
    have later := ih next fun other member => inert other (List.mem_cons_of_mem _ member)
    rwa [List.append_assoc] at later

theorem Between.idle {root : Path} {w w' : World} (between : Between root w) (idle : Idle w w') :
    Between root w' := by
  obtain ⟨disk, acts, grown, inert⟩ := idle
  intro flawless
  rw [grown] at flawless ⊢
  rw [disk]
  exact (between flawless.before).inert inert

theorem Between.good {root : Path} {w : World} (between : Between root w) : Good root w :=
  fun flawless => (between flawless).consistent

variable {engine : EditEngine.Engine} {env : Environment}

theorem investigate_ledger {task : Task} {w : World} {before : List Act}
    (started : w.trace = before ++ [.started task])
    (ready : Flawless w.trace → Ready engine.root w.disk.fs w.trace) :
    Runs ((EditEngine.steps engine env).investigate task) w
      (fun finding w' => Flawless w'.trace → Ledger engine.root w'.disk.fs w'.trace (told finding))
      fun _ w' => Good engine.root w' := by
  refine Runs.bind ((Editor.role.execute_runs env engine.setup task w).imp ?_ ?_)
  · rintro finding w1 ⟨subs, executed, adds⟩
    have ledger : Flawless w1.trace → Ledger engine.root w1.disk.fs w1.trace (told finding) := by
      rw [adds.trace, adds.disk, told_of_executed executed, ← underway_acts before task subs]
      intro flawless
      have whole := (ready flawless.before).subs executed.each
      rw [started, List.append_assoc, List.singleton_append] at whole ⊢
      exact whole
    exact Runs.bind (runs_emit (fun _ => Runs.pure ledger) fun _ flawless => (ledger flawless).consistent)
  · rintro e w1 ⟨-, subs, area, shown, interrupted, adds⟩
    intro flawless
    rw [adds.trace] at flawless ⊢
    rw [adds.disk, interrupted.stuck.scanned, ← List.append_assoc]
    exact (((ready flawless.before).subs interrupted.each).investigating task area _ _).consistent

theorem emits_between {root : Path} {α : Type} {shown : α → JsonValue.Json} {items : List α} {w : World}
    (between : Between root w) :
    Runs (items.forM fun item => emit (shown item)) w (fun _ w' => Between root w') fun _ w' =>
      Good root w' :=
  Runs.forM items (fun _ _ _ kept => runs_emit (fun _ => kept) fun _ => kept.good) between

theorem applyFinding_between (sound : ∀ n, env.faults n = .none) {task : Task} {edits : List ProposedEdit}
    (outcome : ApplyOutcome) {w : World}
    (ledger : Flawless w.trace → Ledger engine.root w.disk.fs w.trace edits) :
    Runs (EditEngine.applyFinding engine env task edits outcome) w (fun _ w' => Between engine.root w')
      fun _ w' => Good engine.root w' := by
  have applies : Runs (applyEdits env engine.root edits) w
      (fun applied w' => w'.trace = w.trace ∧ Grows w.disk.fs w'.disk.fs ∧
        (applied.rejectedPaths = [] → applied.errors = [] → ∀ history,
          Holds engine.root w.disk.fs history → Holds engine.root w'.disk.fs (history ++ edits)))
      fun _ w' => w'.trace = w.trace ∧ Grows w.disk.fs w'.disk.fs := by
    have holds := @apply_holds engine.root env.faults sound edits w.disk
    unfold Runs applyEdits
    cases result : PatchApplier.apply engine.root env.faults edits w.disk with
    | ok applied disk => exact ⟨rfl, holds.ok result⟩
    | error e disk => exact ⟨rfl, holds.error result⟩
  refine Runs.bind (applies.imp ?_ ?_)
  · rintro applied w1 ⟨same, grows, holds⟩
    have between : Between engine.root { w1 with trace := w1.trace ++ [.applied edits applied] } := by
      intro flawless
      obtain ⟨accepted, written⟩ := flawless edits applied (by simp)
      have books := ledger (same ▸ flawless.before)
      have after := books.applied grows (holds accepted written _ books.holds) applied
      rwa [← same] at after
    exact Runs.bind (runs_record (Runs.bind ((emits_between between).weaken fun _ w2 one =>
      Runs.bind ((emits_between one).weaken fun _ w3 two =>
        Runs.bind ((emits_between two).weaken fun _ w4 three => Runs.pure three)))))
  · rintro e w1 ⟨same, grows⟩ flawless
    rw [same] at flawless ⊢
    exact (ledger flawless).consistent.grows grows

theorem settle_between (applying : engine.config.apply = true) (sound : ∀ n, env.faults n = .none)
    {task : Task} {finding : EditFinding} (gathered : EditEngine.Gathered) {w : World}
    (ledger : Flawless w.trace → Ledger engine.root w.disk.fs w.trace (told finding)) :
    Runs ((EditEngine.steps engine env).settle task finding gathered) w (fun _ w' => Between engine.root w')
      fun _ w' => Good engine.root w' := by
  change Runs (EditEngine.settle engine env task finding gathered) w _ _
  unfold EditEngine.settle
  split_ifs with offers
  · have offered : told finding = finding.edits := if_pos offers.1
    rw [offered] at ledger
    exact Runs.bind ((applyFinding_between sound _ ledger).weaken fun _ _ between => Runs.pure between)
  · -- nothing is offered: there is no outcome, or there are no edits
    rw [told_nil offers] at ledger
    exact Runs.pure ledger

theorem process_between (applying : engine.config.apply = true) (sound : ∀ n, env.faults n = .none)
    (task : Task) (queue : TaskQueue.Queue) (progress : Progress EditEngine.Gathered) {w : World}
    (between : Between engine.root w) :
    Runs ((EditEngine.steps engine env).process task queue progress) w (fun _ w' => Between engine.root w')
      fun _ w' => Good engine.root w' := by
  have ready : Flawless (w.trace ++ [.started task]) → Ready engine.root w.disk.fs
    (w.trace ++ [.started task]) :=
    fun flawless => (between flawless.before).started task
  refine Steps.process_rule _ (fun _ flawless => (ready flawless).consistent) ?_
  refine (investigate_ledger rfl ready).weaken fun finding w1 ledger => ?_
  have recorded : Flawless (w1.trace ++ [.settled task (EditEngine.followUps finding)]) →
      Ledger engine.root w1.disk.fs (w1.trace ++ [.settled task (EditEngine.followUps finding)])
        (told finding) :=
    fun flawless => (ledger flawless.before).inert (by simp [Inert])
  refine (settle_between applying sound progress.gathered recorded).weaken fun gathered w2 settled => ?_
  have pushes := Keeps.foldlM Idle.refl Idle.trans (idle_pushDirection task)
    (EditEngine.followUps finding) (queue.markVisited task.targetArea) w2
  exact pushes.imp (fun _ w3 idle => settled.idle idle) fun _ w3 idle => (settled.idle idle).good

theorem explore_between (applying : engine.config.apply = true) (sound : ∀ n, env.faults n = .none)
    (config : EngineConfig) (engineStart : Int) (left : Nat)
    (progress : Progress EditEngine.Gathered) {w : World} (between : Between engine.root w) :
    Runs ((EditEngine.steps engine env).explore env config engineStart left progress) w
      (fun _ w' => Good engine.root w') fun _ w' => Good engine.root w' :=
  ((EditEngine.steps engine env).explore_runs (fun _ w' => Between engine.root w') (fun _ _ _ kept => kept)
    (fun progress _ task queue _ kept => process_between applying sound task queue progress kept)
      left progress w
    between).weaken fun _ _ kept => kept.1.good

theorem queueSeeds_between {root : Path} (tasks : List Task) {w : World} (between : Between root w) :
    Runs (Seeding.queueSeeds tasks) w (fun _ w' => Between root w') fun _ w' => Good root w' := by
  have idle : Keeps Idle (Seeding.queueSeeds tasks) := by
    refine Keeps.foldlM Idle.refl Idle.trans (fun queue t => ?_) _ _
    have pushed : Inert (.pushed t (queue.push t).1) := trivial
    exact Keeps.bind Idle.trans (idle_record pushed) fun _ =>
      Keeps.bind Idle.trans (idle_emit _) fun _ => Keeps.pure Idle.refl _
  exact (idle w).imp (fun _ _ idle => between.idle idle) fun _ _ idle => (between.idle idle).good

/-- The world after a run, with the record of that run. -/
def finished (engine : EditEngine.Engine) (env : Environment) (taskDescription : Bytes)
    (w : World) : World :=
  finalState (EditEngine.run engine env taskDescription { w with trace := [] })

/-- In apply mode, if every edit is inside the root and is written, each file is shown as the last edit to
it in the run left it exactly when no file is shown that edits of the same task are yet to change. -/
theorem shows_last_iff (engine : EditEngine.Engine) (env : Environment)
    (taskDescription : Bytes) (w : World) (applying : engine.config.apply = true)
    (sound : ∀ n, env.faults n = .none)
    (flawless : Flawless (finished engine env taskDescription w).trace) :
    ShowsLast engine.root (finished engine env taskDescription w).disk.fs
      (finished engine env taskDescription w).trace ↔
      PendingSpares engine.root (finished engine env taskDescription w).disk.fs
        (finished engine env taskDescription w).trace := by
  have consistent := @edit_always (fun disk trace => Flawless trace → Consistent engine.root disk.fs trace)
    engine env taskDescription { w with trace := [] } rfl (fun _ => (Ledger.empty _ _).consistent) ?_
  · exact (consistent flawless).showsLast_iff
  · intro w' keywords seed engineStart blank _ _
    have start : Between engine.root w' := by
      intro _
      rw [blank]
      exact .empty _ _
    exact (queueSeeds_between [seed] start).weaken fun _ _ between =>
      explore_between applying sound _ _ _ _ between

/-! In the codebase of two files, the reply about `a.cpp` edits `b.cpp`, the next area of the task. -/

def staleReply : Bytes :=
  ascii "\x7b\"outcome\": \"success\", \"edits\": [\x7b\"path\": \"b.cpp\", \"new_content\": \"evict\"\x7d]\x7d"

def staleReplies : List (Bytes × JsonValue.Json) :=
  [(staleReply, .obj [(ascii "outcome", .str (ascii "success")), (ascii "edits",
    .arr [.obj [(ascii "path", .str (ascii "b.cpp")), (ascii "new_content", .str (ascii "evict"))]])])]

def staleEnv : Environment where
  parser := .table (OllamaClient.exchanges staleReplies) (by decide +kernel)
  http n := if n = 1 then .response 200 (OllamaClient.responseBody staleReply) else .failed
  clock _ := 0
  faults _ := .none

def staleEngine : EditEngine.Engine :=
  ⟨{}, ⟨ofBytes (ascii "/r"), defaultExtensions⟩, ofBytes (ascii "/r"), { apply := true }⟩

def staleWorld : World := finished staleEngine staleEnv (ascii "add a cache")
    { disk := { fs := Samples.cached } }

def staleEdit : ProposedEdit := ⟨ascii "b.cpp", ascii "evict", []⟩

def staleFile : Loc := [Samples.bCpp, Samples.r]

theorem prefix_of_getElem? {acts : List Act} {n : Nat} {act : Act} (here : acts[n]? = some act) :
    acts.take n ++ [act] <+: acts := by
  have more := List.take_prefix (n + 1) acts
  rwa [List.take_add_one, here] at more

theorem stale_run : (staleWorld.trace.all fun act => match act with
      | .applied _ outcome => decide (outcome.rejectedPaths = []) && decide (outcome.errors = [])
      | _ => true) = true ∧
    (match staleWorld.trace[6]? with
      | some (Act.scanned _ shown) => decide ((staleFile, ascii "cache") ∈ shown.places)
      | _ => false) = true ∧
    lastTo staleEngine.root staleWorld.disk.fs staleFile (returned (staleWorld.trace.take 6)) =
        some staleEdit := by
  decide +kernel

theorem stale_flawless : Flawless staleWorld.trace := by
  intro edits outcome member
  simpa using List.all_eq_true.1 stale_run.1 _ member

/-- The second area is shown as it was before the edit that the first one returned. -/
theorem stale_shown : staleEngine.config.apply = true ∧ (∀ n, staleEnv.faults n = .none) ∧
    Flawless staleWorld.trace ∧
    ¬ ShowsLast staleEngine.root staleWorld.disk.fs staleWorld.trace := by
  refine ⟨rfl, fun _ => rfl, stale_flawless, fun shows => ?_⟩
  obtain ⟨-, scan, last⟩ := stale_run
  split at scan
  · rename_i area shown here
    have same := shows _ area shown (prefix_of_getElem? here) _ (of_decide_eq_true scan) staleEdit last
    exact absurd same (by decide)
  · cases scan

/-- The condition at work. -/
theorem shows_last_iff_stale :
    ShowsLast staleEngine.root staleWorld.disk.fs staleWorld.trace ↔
      PendingSpares staleEngine.root staleWorld.disk.fs staleWorld.trace := by
  have flawless := stale_flawless
  unfold staleWorld at *
  exact shows_last_iff staleEngine staleEnv (ascii "add a cache") _ rfl (fun _ => rfl) flawless

end CppCoder.LostUpdates
