import CppCoder.Editor
import CppCoder.Worker

/-! How the findings about a task's areas are merged into one: the best outcome wins, and directions are
collected from the areas that found something. -/

namespace CppCoder.Merging
open Support Utf8 CppCoder.Types Agent

inductive Verdict where
  | nothing
  | partly
  | success
  deriving DecidableEq

def Verdict.merge (merged sub : Verdict) : Verdict :=
  if sub = .success ∧ merged ≠ .success then .success
  else if sub = .partly ∧ merged = .nothing then .partly
  else merged

variable {φ : Type}

structure View (role : Role φ) where
  verdict : φ → Verdict
  directions : φ → List Task
  blank : ∀ area, verdict (role.blank area) = .nothing ∧ directions (role.blank area) = []
  verdict_merge : ∀ merged area sub,
    verdict (role.mergeSub merged area sub) = (verdict merged).merge (verdict sub)
  directions_merge : ∀ merged area sub, directions (role.mergeSub merged area sub) =
    directions merged ++ if verdict sub = .nothing then [] else directions sub
  timed : ∀ duration finding, verdict (role.setDuration duration finding) = verdict finding ∧
    directions (role.setDuration duration finding) = directions finding

theorem merge_success (merged sub : Verdict) :
    merged.merge sub = .success ↔ merged = .success ∨ sub = .success := by
  cases merged <;> cases sub <;> decide

theorem merge_nothing (merged sub : Verdict) :
    merged.merge sub = .nothing ↔ merged = .nothing ∧ sub = .nothing := by
  cases merged <;> cases sub <;> decide

structure Merged {role : Role φ} (view : View role) (subs : List (SubRun φ)) (finding : φ) : Prop where
  success : view.verdict finding = .success ↔ ∃ sub ∈ subs, view.verdict sub.finding = .success
  nothing : view.verdict finding = .nothing ↔ ∀ sub ∈ subs, view.verdict sub.finding = .nothing
  taken : ∀ sub ∈ subs, view.verdict sub.finding ≠ .nothing →
    ∀ d ∈ view.directions sub.finding, d ∈ view.directions finding
  given : ∀ d ∈ view.directions finding, ∃ sub ∈ subs, d ∈ view.directions sub.finding

theorem Merged.partly {role : Role φ} {view : View role} {subs : List (SubRun φ)} {finding : φ}
    (merged : Merged view subs finding) (unfinished : ∀ sub ∈ subs, view.verdict sub.finding ≠ .success)
    {sub : SubRun φ} (member : sub ∈ subs) (part : view.verdict sub.finding = .partly) :
    view.verdict finding = .partly := by
  cases verdict : view.verdict finding with
  | nothing =>
    have none := merged.nothing.1 verdict sub member
    rw [part] at none
    cases none
  | partly => rfl
  | success =>
    obtain ⟨other, there, done⟩ := merged.success.1 verdict
    exact absurd done (unfinished other there)

theorem merged_foldl {role : Role φ} (view : View role) (area : Bytes) (subs : List (SubRun φ)) :
    Merged view subs (subs.foldl (fun merged sub => role.mergeSub merged sub.area sub.finding)
        (role.blank area)) := by
  induction subs using List.reverseRecOn with
  | nil =>
    obtain ⟨verdict, directions⟩ := view.blank area
    exact ⟨by simp [verdict], by simp [verdict], by simp, by simp [directions]⟩
  | append_singleton subs sub ih =>
    rw [List.foldl_append, List.foldl_cons, List.foldl_nil]
    refine ⟨?_, ?_, ?_, ?_⟩
    · rw [view.verdict_merge, merge_success, ih.success]
      simp [or_and_right, exists_or]
    · rw [view.verdict_merge, merge_nothing, ih.nothing]
      simp [or_imp, forall_and]
    · intro other member something d there
      rw [view.directions_merge]
      rcases List.mem_append.1 member with earlier | now
      · exact List.mem_append_left _ (ih.taken other earlier something d there)
      · cases List.mem_singleton.1 now
        rw [if_neg something]
        exact List.mem_append_right _ there
    · intro d there
      rw [view.directions_merge] at there
      rcases List.mem_append.1 there with earlier | now
      · obtain ⟨other, member, found⟩ := ih.given d earlier
        exact ⟨other, List.mem_append_left _ member, found⟩
      · refine ⟨sub, by simp, ?_⟩
        split_ifs at now with nothing
        · cases now
        · exact now

theorem merged_of_executed {role : Role φ} (view : View role) {env : Session.Environment} {setup : Setup}
    {task : Task} {fs : Support.Disk.FileSystem} {subs : List (SubRun φ)} {finding : φ}
    (executed : role.Executed env setup task fs subs finding) : Merged view subs finding := by
  have combines := executed.combines
  unfold Role.Combines at combines
  split_ifs at combines with single
  · obtain ⟨sub, rfl, rfl⟩ := List.map_eq_singleton_iff.1 combines
    exact ⟨by simp, by simp, by simp, by simp⟩
  · obtain ⟨duration, rfl⟩ := combines
    obtain ⟨success, nothing, taken, given⟩ := merged_foldl view task.targetArea subs
    obtain ⟨verdict, directions⟩ := view.timed duration
      (subs.foldl (fun merged sub => role.mergeSub merged sub.area sub.finding)
        (role.blank task.targetArea))
    exact ⟨verdict ▸ success, verdict ▸ nothing, directions ▸ taken, directions ▸ given⟩

def ofWorker : WorkerOutcome → Verdict
  | .success => .success
  | .partialWithDirections => .partly
  | .noInformation => .nothing

def ofEditor : EditOutcome → Verdict
  | .success => .success
  | .partialWithDirections => .partly
  | .noChangeNeeded => .nothing

def worker : View Worker.role where
  verdict finding := ofWorker finding.outcome
  directions finding := finding.suggestedDirections
  blank _ := ⟨rfl, rfl⟩
  verdict_merge merged area sub := by
    change ofWorker (Worker.mergeOutcome _ _) = _
    cases merged.outcome <;> cases sub.outcome <;> rfl
  directions_merge merged area sub := by
    change merged.suggestedDirections ++ _ = _
    cases sub.outcome <;> rfl
  timed _ _ := ⟨rfl, rfl⟩

def editor : View Editor.role where
  verdict finding := ofEditor finding.outcome
  directions finding := finding.suggestedDirections
  blank _ := ⟨rfl, rfl⟩
  verdict_merge merged area sub := by
    change ofEditor (Editor.mergeOutcome _ _) = _
    cases merged.outcome <;> cases sub.outcome <;> rfl
  directions_merge merged area sub := by
    change merged.suggestedDirections ++ _ = _
    cases sub.outcome <;> rfl
  timed _ _ := ⟨rfl, rfl⟩

end CppCoder.Merging
