import CppCoder.EngineRuns
import CppCoder.Merging
import CppCoder.Samples

/-! Which directions of a task's areas reach the queue after their findings were merged. -/

namespace CppCoder.FollowUps
open Support Utf8 JsonValue Program CppCoder.Types TaskQueue Session Agent EngineLoop EngineRuns Merging

/-- The direction was pushed, and the queue knows its area. -/
structure Handed (task : Task) (queue : Queue) (acts : List Act) (d : Task) : Prop where
  pushed : ∃ accepted, .pushed (child task d) accepted ∈ acts
  known : d.targetArea ∈ queue.visited ∨ d.targetArea ∈ queue.queuedAreas

theorem push_known (q : Queue) (task : Task) :
    (task.targetArea ∈ (q.push task).2.visited ∨ task.targetArea ∈ (q.push task).2.queuedAreas) ∧
      ∀ area, area ∈ q.visited ∨ area ∈ q.queuedAreas →
        area ∈ (q.push task).2.visited ∨ area ∈ (q.push task).2.queuedAreas := by
  rw [push_eq]
  split_ifs with known
  · exact ⟨known, fun _ earlier => earlier⟩
  · refine ⟨.inr (Finset.mem_insert_self _ _), fun area earlier => ?_⟩
    exact earlier.imp id Finset.mem_insert_of_mem

theorem pushes_runs (task : Task) (queue : Queue) (dirs : List Task) (w : World) :
    Runs (dirs.foldlM (pushDirection task) queue) w
      (fun queue' w' => ∃ acts, w'.trace = w.trace ++ acts ∧ (∀ d ∈ dirs, Handed task queue' acts d) ∧
        ∀ act ∈ acts, ∃ d ∈ dirs, ∃ accepted, act = .pushed (child task d) accepted)
      fun _ _ => True := by
  refine Runs.foldlM (fun read queue' (w' : World) => ∃ acts, w'.trace = w.trace ++ acts ∧
    (∀ d ∈ read, Handed task queue' acts d) ∧
    ∀ act ∈ acts, ∃ d ∈ read, ∃ accepted, act = .pushed (child task d) accepted) dirs ?_ ?_
  · rintro read dir rest queue' w' - ⟨acts, grown, handed, only⟩
    obtain ⟨now, before⟩ := push_known queue' (child task dir)
    have result : ∃ more, w'.trace ++ [.pushed (child task dir) (queue'.push (child task dir)).1] =
      w.trace ++ more ∧
        (∀ d ∈ read ++ [dir], Handed task (queue'.push (child task dir)).2 more d) ∧
        ∀ act ∈ more, ∃ d ∈ read ++ [dir], ∃ accepted, act = .pushed (child task d) accepted := by
      refine ⟨acts ++ [.pushed (child task dir) _], by rw [grown, List.append_assoc], ?_, ?_⟩
      · refine List.forall_mem_append.2 ⟨fun d member => ?_, ?_⟩
        · obtain ⟨⟨accepted, pushed⟩, known⟩ := handed d member
          exact ⟨⟨accepted, List.mem_append_left _ pushed⟩, before _ known⟩
        · have last : Handed task (queue'.push (child task dir)).2
              (acts ++ [.pushed (child task dir) (queue'.push (child task dir)).1]) dir :=
            ⟨⟨_, List.mem_append_right _ (List.mem_singleton_self _)⟩, now⟩
          simpa using last
      · refine List.forall_mem_append.2 ⟨fun act member => ?_, ?_⟩
        · obtain ⟨d, there, same⟩ := only act member
          exact ⟨d, List.mem_append_left _ there, same⟩
        · intro act member
          exact ⟨dir, by simp, _, List.mem_singleton.1 member⟩
    refine Runs.bind (runs_record (Runs.bind ?_))
    unfold announce
    split_ifs
    · exact runs_emit (fun _ => Runs.pure result) fun _ => trivial
    · exact Runs.pure (Runs.pure result)
  · exact ⟨[], by simp, by simp, by simp⟩

variable {φ ρ : Type}

/-- What a task that was processed left behind: its start, the investigation, its end, the use of the
result, and the directions. -/
structure Processed (steps : Steps φ ρ) (task : Task) (queue : Queue) (result : φ) (inner acts : List Act) :
    Prop where
  whole : ∃ used pushes, acts = .started task :: inner ++ .settled task (steps.followUps result) ::
    used ++ pushes ∧
    (∀ act ∈ used, Applying act) ∧ (∀ d ∈ steps.followUps result, Handed task queue pushes d) ∧
    ∀ act ∈ pushes, ∃ d ∈ steps.followUps result, ∃ accepted, act = .pushed (child task d) accepted

theorem process_runs {steps : Steps φ ρ} (quiet : Quiet steps) (task : Task) (queue : Queue)
    (progress : Progress ρ) {spec : φ → List Act → Prop} (w : World)
    (investigates : ∀ w1, Runs (steps.investigate task) w1
      (fun result w2 => ∃ inner, w2.trace = w1.trace ++ inner ∧ spec result inner) fun _ _ => True) :
    Runs (steps.process task queue progress) w
      (fun progress' w' => ∃ result inner acts, spec result inner ∧ w'.trace = w.trace ++ acts ∧
        Processed steps task progress'.queue result inner acts)
      fun _ _ => True := by
  apply steps.process_rule (fun _ => trivial)
  apply (investigates _).weaken
  rintro result w1 ⟨inner, first, holds⟩
  apply (quiet.settle task result _ _).imp _ fun _ _ _ => trivial
  rintro gathered w2 ⟨used, second, applying⟩
  apply (pushes_runs task _ (steps.followUps result) w2).weaken
  rintro queue' w3 ⟨pushes, third, handed, only⟩
  refine ⟨result, inner, _, holds, ?_, used, pushes, rfl, applying, handed, only⟩
  rw [third, second, first]
  simp

section Processed
variable {steps : Steps φ ρ} {task : Task} {queue : Queue} {result : φ} {inner acts : List Act}

theorem Processed.mem_iff (processed : Processed steps task queue result inner acts) {act : Act}
    (within : Within act) (kept : ¬ Applying act) : act ∈ acts ↔ act ∈ inner := by
  obtain ⟨used, pushes, rfl, applying, -, only⟩ := processed.whole
  constructor
  · intro member
    simp only [List.cons_append, List.mem_cons, List.mem_append] at member
    rcases member with rfl | (there | rfl | there) | there
    · exact within.elim
    · exact there
    · exact within.elim
    · exact absurd (applying act there) kept
    · obtain ⟨d, -, accepted, rfl⟩ := only act there
      exact within.elim
  · intro there
    simp [there]

theorem Processed.handed (processed : Processed steps task queue result inner acts) {d : Task}
    (followed : d ∈ steps.followUps result) : Handed task queue acts d := by
  obtain ⟨used, pushes, rfl, -, handed, -⟩ := processed.whole
  obtain ⟨⟨accepted, pushed⟩, known⟩ := handed d followed
  exact ⟨⟨accepted, List.mem_append_right _ pushed⟩, known⟩

theorem Processed.none_handed (processed : Processed steps task queue result inner acts)
    (within : ∀ act ∈ inner, Within act) (nothing : steps.followUps result = []) (d : Task) :
    ¬ Handed task queue acts d := by
  obtain ⟨used, pushes, rfl, applying, -, only⟩ := processed.whole
  rintro ⟨⟨accepted, pushed⟩, -⟩
  simp only [List.cons_append, List.mem_cons, List.mem_append, reduceCtorEq, false_or] at pushed
  rcases pushed with (there | there) | there
  · exact within _ there
  · exact applying _ there
  · obtain ⟨other, followed, -⟩ := only _ there
    rw [nothing] at followed
    cases followed

theorem Processed.handed_iff (processed : Processed steps task queue result inner acts)
    (within : ∀ act ∈ inner, Within act) {succeeded : Prop} {owed : Task → Prop}
    (blocked : succeeded → steps.followUps result = [])
    (followed : ¬ succeeded → ∀ d, owed d → d ∈ steps.followUps result) :
    (∀ d, owed d → Handed task queue acts d) ↔ ¬ succeeded ∨ ∀ d, ¬ owed d := by
  constructor
  · intro handed
    by_cases done : succeeded
    · exact .inr fun d due => processed.none_handed within (blocked done) d (handed d due)
    · exact .inl done
  · rintro (unfinished | none) d due
    · exact processed.handed (followed unfinished d due)
    · exact absurd due (none d)

end Processed

/-- A direction of an area whose own outcome is partial. -/
def OwedByEditing (acts : List Act) (d : Task) : Prop :=
  ∃ finding, .edited finding ∈ acts ∧ finding.outcome = .partialWithDirections ∧
    d ∈ finding.suggestedDirections

def EditInvestigation (task : Task) (finding : EditFinding) (inner : List Act) : Prop :=
  ∃ subs, Merged editor subs finding ∧ inner = subs.flatMap fun sub => sub.acts Editor.role task

theorem edit_investigates (engine : EditEngine.Engine) (env : Environment) (task : Task) (w : World) :
    Runs ((EditEngine.steps engine env).investigate task) w
      (fun finding w' => ∃ inner, w'.trace = w.trace ++ inner ∧ EditInvestigation task finding inner)
      fun _ _ => True := by
  refine Runs.bind ((Editor.role.execute_runs env _ task w).imp ?_ fun _ _ _ => trivial)
  rintro finding w' ⟨subs, executed, adds⟩
  refine Runs.bind (runs_emit (fun _ => Runs.pure ?_) fun _ => trivial)
  exact ⟨_, adds.trace, subs, merged_of_executed editor executed, rfl⟩

theorem mem_acts {role : Role φ} {task : Task} {subs : List (SubRun φ)} {act : Act} :
    act ∈ subs.flatMap (fun sub => sub.acts role task) ↔ ∃ sub ∈ subs,
      act = .investigating task sub.area ∨ act = .scanned sub.area sub.shown ∨ act =
          role.toAct sub.finding := by
  simp [SubRun.acts]

theorem mem_edited {task : Task} {subs : List (SubRun EditFinding)} {finding : EditFinding} :
    .edited finding ∈ subs.flatMap (fun sub => sub.acts Editor.role task) ↔ ∃ sub ∈ subs,
        sub.finding = finding := by
  rw [mem_acts]
  simp [Editor.role, eq_comm]

theorem within_acts {role : Role φ} {task : Task} {subs : List (SubRun φ)}
    (told : ∀ finding, Within (role.toAct finding)) :
    ∀ act ∈ subs.flatMap (fun sub => sub.acts role task), Within act := by
  intro act member
  obtain ⟨sub, -, rfl | rfl | rfl⟩ := mem_acts.1 member
  · exact trivial
  · exact trivial
  · exact told _

theorem editor_verdict (finding : EditFinding) :
    (editor.verdict finding = .success ↔ finding.outcome = .success) ∧
      (editor.verdict finding = .partly ↔ finding.outcome = .partialWithDirections) := by
  change (ofEditor finding.outcome = _ ↔ _) ∧ (ofEditor finding.outcome = _ ↔ _)
  cases finding.outcome <;> decide

theorem edit_handed {engine : EditEngine.Engine} {env : Environment} {task : Task} {queue : Queue}
    {finding : EditFinding} {inner acts : List Act} (investigated : EditInvestigation task finding inner)
    (processed : Processed (EditEngine.steps engine env) task queue finding inner acts) :
    (∀ d, OwedByEditing acts d → Handed task queue acts d) ↔
      (¬ ∃ sub, .edited sub ∈ acts ∧ sub.outcome = .success) ∨ ∀ d, ¬ OwedByEditing acts d := by
  obtain ⟨subs, merged, rfl⟩ := investigated
  have told : ∀ sub, .edited sub ∈ acts ↔ ∃ one ∈ subs, one.finding = sub := fun sub =>
    Iff.trans (processed.mem_iff trivial id) mem_edited
  apply processed.handed_iff (within_acts fun _ => trivial)
  · rintro ⟨sub, reported, success⟩
    obtain ⟨one, member, rfl⟩ := (told sub).1 reported
    have whole := merged.success.2 ⟨one, member, (editor_verdict _).1.2 success⟩
    refine if_neg fun part => ?_
    rw [(editor_verdict finding).2.2 part] at whole
    cases whole
  · rintro unfinished d ⟨sub, reported, part, proposed⟩
    obtain ⟨one, member, rfl⟩ := (told sub).1 reported
    have partly := (editor_verdict _).2.2 part
    have whole := merged.partly (fun other there done =>
      unfinished ⟨_, (told _).2 ⟨other, there, rfl⟩, (editor_verdict _).1.1 done⟩) member partly
    change d ∈ if finding.outcome = .partialWithDirections then finding.suggestedDirections else []
    rw [if_pos ((editor_verdict finding).2.1 whole)]
    exact merged.taken one member (by rw [partly]; decide) d proposed

/-! ### Research -/

/-- A direction of an area whose own outcome is partial, kept by the judge. -/
def OwedByResearch (acts : List Act) (d : Task) : Prop :=
  (∃ finding, .found finding ∈ acts ∧ finding.outcome = .partialWithDirections ∧
    d ∈ finding.suggestedDirections) ∧
  ∃ raw reply finding, .reviewed raw reply finding ∈ acts ∧ d ∈ finding.suggestedDirections

def Investigation (parser : Parser) (task : Task) (finding : Finding) (inner : List Act) : Prop :=
  ∃ subs raw reply, Merged worker subs raw ∧ finding = Judge.judged parser raw reply ∧
    inner = (subs.flatMap fun sub => sub.acts Worker.role task) ++ [.reviewed raw reply finding]

theorem research_investigates (engine : ResearchEngine.Engine) (env : Environment) (question : Bytes)
    (task : Task) (w : World) :
    Runs ((ResearchEngine.steps engine env question).investigate task) w
      (fun finding w' => ∃ inner, w'.trace = w.trace ++ inner ∧ Investigation env.parser task finding inner)
      fun _ _ => True := by
  refine Runs.bind ((Worker.role.execute_runs env _ task w).imp ?_ fun _ _ _ => trivial)
  rintro raw w1 ⟨subs, executed, adds⟩
  refine Runs.bind (runs_emit (fun _ => Runs.bind ?_) fun _ => trivial)
  refine (Judge.review_runs env engine.client question raw _).imp ?_ fun _ _ _ => trivial
  rintro finding w2 ⟨reply, same, more⟩
  refine Runs.bind (runs_emit (fun _ => Runs.pure ?_) fun _ => trivial)
  refine ⟨_, ?_, subs, raw, reply, merged_of_executed worker executed, same, rfl⟩
  rw [more.trace, adds.trace, List.append_assoc]

theorem mem_found {task : Task} {subs : List (SubRun Finding)} {finding : Finding} :
    .found finding ∈ subs.flatMap (fun sub => sub.acts Worker.role task) ↔ ∃ sub ∈ subs,
        sub.finding = finding := by
  rw [mem_acts]
  simp [Worker.role, eq_comm]

theorem worker_verdict (finding : Finding) :
    (worker.verdict finding = .success ↔ finding.outcome = .success) ∧
      (worker.verdict finding = .partly ↔ finding.outcome = .partialWithDirections) := by
  change (ofWorker finding.outcome = _ ↔ _) ∧ (ofWorker finding.outcome = _ ↔ _)
  cases finding.outcome <;> decide

theorem research_handed {engine : ResearchEngine.Engine} {env : Environment} {question : Bytes}
    {task : Task} {queue : Queue} {finding : Finding} {inner acts : List Act}
    (investigated : Investigation env.parser task finding inner)
    (processed : Processed (ResearchEngine.steps engine env question) task queue finding inner acts) :
    (∀ d, OwedByResearch acts d → Handed task queue acts d) ↔
      (¬ ∃ sub, .found sub ∈ acts ∧ sub.outcome = .success) ∨ ∀ d, ¬ OwedByResearch acts d := by
  obtain ⟨subs, raw, reply, merged, rfl, rfl⟩ := investigated
  have told : ∀ sub, .found sub ∈ acts ↔ ∃ one ∈ subs, one.finding = sub := fun sub =>
    Iff.trans (processed.mem_iff trivial id) (by simpa using mem_found)
  apply processed.handed_iff
  · exact List.forall_mem_append.2 ⟨within_acts fun _ => trivial, by simp [Within]⟩
  · rintro ⟨sub, reported, success⟩
    obtain ⟨one, member, rfl⟩ := (told sub).1 reported
    have whole := (worker_verdict _).1.1 (merged.success.2 ⟨one, member, (worker_verdict _).1.2 success⟩)
    have outcome : (Judge.judged env.parser raw reply).outcome = .success := by
      rcases (Judge.judged_judgement env.parser raw reply).outcome with same | ⟨part, -⟩
      · exact same.trans whole
      · rw [whole] at part
        cases part
    refine if_neg fun part => ?_
    rw [outcome] at part
    cases part
  · rintro unfinished d ⟨⟨sub, reported, part, proposed⟩, other, answer, kept, judged, stays⟩
    obtain ⟨one, member, rfl⟩ := (told sub).1 reported
    have partly := (worker_verdict _).2.2 part
    have whole := (worker_verdict _).2.1 <| merged.partly (fun other there done =>
      unfinished ⟨_, (told _).2 ⟨other, there, rfl⟩, (worker_verdict _).1.1 done⟩) member partly
    -- there is one judgement only
    have same : .reviewed other answer kept ∈ acts ↔ _ := processed.mem_iff trivial id
    have only := same.1 judged
    rw [List.mem_append, mem_acts] at only
    simp only [Worker.role, reduceCtorEq, or_self, and_false, exists_false, List.mem_singleton, false_or,
      Act.reviewed.injEq] at only
    obtain ⟨rfl, rfl, rfl⟩ := only
    have outcome : (Judge.judged env.parser other answer).outcome = .partialWithDirections := by
      rcases (Judge.judged_judgement env.parser other answer).outcome with same | ⟨-, -, none⟩
      · exact same.trans whole
      · rw [none] at stays
        cases stays
    change d ∈ if (Judge.judged env.parser other answer).outcome = .partialWithDirections then
      (Judge.judged env.parser other answer).suggestedDirections else []
    rwa [if_pos outcome]

/-- In both engines, the directions of a task's partial areas, in research those that the judge keeps,
are all handed to the queue exactly when no area of the task succeeds or there are no such directions. -/
theorem directions_handed (env : Environment) (task : Task) (queue : Queue) (w : World) :
    (∀ engine question progress,
      Runs ((ResearchEngine.steps engine env question).process task queue progress) w
        (fun progress' w' => ∃ acts, w'.trace = w.trace ++ acts ∧
          ((∀ d, OwedByResearch acts d → Handed task progress'.queue acts d) ↔
            (¬ ∃ sub, .found sub ∈ acts ∧ sub.outcome = .success) ∨ ∀ d, ¬ OwedByResearch acts d))
        fun _ _ => True) ∧
    ∀ engine progress,
      Runs ((EditEngine.steps engine env).process task queue progress) w
        (fun progress' w' => ∃ acts, w'.trace = w.trace ++ acts ∧
          ((∀ d, OwedByEditing acts d → Handed task progress'.queue acts d) ↔
            (¬ ∃ sub, .edited sub ∈ acts ∧ sub.outcome = .success) ∨ ∀ d, ¬ OwedByEditing acts d))
        fun _ _ => True := by
  constructor
  · intro engine question progress
    refine (process_runs (research_quiet engine env question) task queue progress w
      (research_investigates engine env question task)).weaken ?_
    rintro progress' w' ⟨finding, inner, acts, investigated, grown, processed⟩
    exact ⟨acts, grown, research_handed investigated processed⟩
  · intro engine progress
    refine (process_runs (edit_quiet engine env) task queue progress w
      (edit_investigates engine env task)).weaken ?_
    rintro progress' w' ⟨finding, inner, acts, investigated, grown, processed⟩
    exact ⟨acts, grown, edit_handed investigated processed⟩

/-! In the codebase of two files, the edit of `a.cpp` is complete, that of `b.cpp` calls for another in
`c.cpp`. -/

def doneReply : Bytes := ascii "\x7b\"outcome\": \"success\"\x7d"

def furtherReply : Bytes :=
  ascii "\x7b\"outcome\": \"partial\", \"directions\": [\x7b\"target_area\": \"c.cpp\", " ++
  ascii "\"research_goal\": \"evict\"\x7d]\x7d"

def lostReplies : List (Bytes × Json) :=
  [(doneReply, .obj [(ascii "outcome", .str (ascii "success"))]),
    (furtherReply, .obj [(ascii "outcome", .str (ascii "partial")), (ascii "directions",
      .arr [.obj [(ascii "target_area", .str (ascii "c.cpp")),
        (ascii "research_goal", .str (ascii "evict"))]])])]

def lostEnv : Environment where
  parser := .table (OllamaClient.exchanges lostReplies) (by decide +kernel)
  http n :=
    if n = 1 then .response 200 (OllamaClient.responseBody doneReply)
    else if n = 2 then .response 200 (OllamaClient.responseBody furtherReply)
    else .failed
  clock _ := 0
  faults _ := .none

def lostEngine : EditEngine.Engine :=
  ⟨{}, ⟨Support.Paths.ofBytes (ascii "/r"), CodebaseScanner.defaultExtensions⟩,
    Support.Paths.ofBytes (ascii "/r"), {}⟩

def lostDirection : Task :=
  { id := ascii "edit-task-1", targetArea := ascii "c.cpp", researchGoal := ascii "evict" }

def lostFinding : EditFinding :=
  { outcome := .partialWithDirections
    areaInvestigated := ascii "b.cpp"
    suggestedDirections := [lostDirection]
    promptTokensApprox := 8 }

def lostTrace : List Act :=
  (finalState (EditEngine.run lostEngine lostEnv (ascii "add a cache")
    { disk := { fs := Samples.cached } })).trace

def pushedTasks (trace : List Act) : List Task :=
  trace.filterMap fun act => match act with
    | .pushed task _ => some task
    | _ => none

/-- The second area is partial with a direction that is never pushed. -/
theorem direction_lost : OwedByEditing lostTrace lostDirection ∧
    ∀ task accepted, .pushed (child task lostDirection) accepted ∉ lostTrace := by
  have run : .edited lostFinding ∈ lostTrace ∧
      ∀ task ∈ pushedTasks lostTrace, task.targetArea ≠ lostDirection.targetArea := by decide +kernel
  refine ⟨⟨lostFinding, run.1, rfl, List.mem_singleton_self _⟩, fun task accepted member => ?_⟩
  exact run.2 (child task lostDirection) (List.mem_filterMap.2 ⟨_, member, rfl⟩) rfl

end CppCoder.FollowUps
