import CppCoder.Containment

/-! Batches that are given up. The check of a path may throw, and the throw leaves the edits before it
written and the outcome unreturned. -/

namespace CppCoder.Abandonment
open Support Utf8 Paths Support.Tree Disk FileSystem Program CppCoder.Types PatchApplier Containment

variable {fs : FileSystem} {root : Path}

def Unknown (e : Errno) : Prop := ¬ (e = .noEntry ∨ e = .notDirectory)

theorem canonicalForm_throws {p : Path} {e : Errno} :
    fs.canonicalForm p = .error e ↔ fs.resolve p = .error e ∧ Unknown e := by
  unfold canonicalForm Unknown
  cases found : fs.resolve p with
  | ok loc => simp
  | error e' =>
    by_cases absent : e' = .noEntry ∨ e' = .notDirectory
    · simp only [if_pos absent, Except.error.injEq]
      constructor
      · intro thrown
        split_ifs at thrown
      · rintro ⟨rfl, known⟩
        exact absurd absent known
    · simp only [if_neg absent, Except.error.injEq]
      constructor
      · rintro rfl
        exact ⟨rfl, absent⟩
      · exact And.left

theorem weaklyCanonical_throws {p : Path} : (∃ e, fs.weaklyCanonical p = .error e) ↔
    (∃ e, fs.resolve p = .error e ∧ Unknown e) ∨ fs.spelled p = false := by
  simp only [← canonicalForm_throws]
  unfold weaklyCanonical
  cases fs.canonicalForm p with
  | error e => simp
  | ok form => cases fs.spelled p <;> simp

theorem walk_trailing {links : Nat} {place : Loc} {e : Errno}
    (failed : fs.walk links place [.trailing] = .error e) : e = .notDirectory := by
  cases result : fs.step place .trailing with
  | ok turn =>
    obtain rfl := step_trailing result
    simp [walk_place result] at failed
  | error e' =>
    rw [walk_failed result] at failed
    cases failed
    unfold step at result
    split at result <;> first | contradiction | exact (Except.error.inj result).symm

theorem resolve_join_unknown {added : Path} {e : Errno} (relative : added.absolute = false)
    (failed : fs.resolve root = .error e) (unknown : Unknown e) :
    ∃ e', fs.resolve (join root added) = .error e' ∧ Unknown e' := by
  have nonempty : root.asked ≠ [] := by
    intro empty
    simp only [resolve, ask, if_pos empty, Except.error.injEq] at failed
    exact unknown (.inl failed.symm)
  have inhabited : root.text ≠ [] := fun empty => nonempty (by simp [Path.asked, empty])
  have starts : fs.start (join root added) = fs.start root := by
    simp only [start, absolute_join relative inhabited]
  by_cases cut : null ∈ root.text
  · -- the system is asked for the root again
    have same := asked_join_cut relative cut
    refine ⟨e, ?_, unknown⟩
    unfold resolve ask Path.parts at failed ⊢
    rw [same, starts]
    exact failed
  obtain ⟨front, asked, -, longer⟩ := asked_join relative inhabited cut
  have some : (join root added).asked ≠ [] := by simp [asked]
  by_cases long : fs.pathMax ≤ (join root added).asked.length
  · exact ⟨.nameTooLong, by simp only [resolve, ask, if_neg some, if_pos long], by simp [Unknown]⟩
  have short : ¬ fs.pathMax ≤ root.asked.length := by
    have shorter := longer.length_le
    rw [asked_plain cut]
    simp only [asked, List.length_append, List.length_cons, List.length_nil] at long shorter
    omega
  obtain ⟨rest, parts, -⟩ := parts_join relative inhabited cut
  refine ⟨e, ?_, unknown⟩
  simp only [resolve, ask, if_neg nonempty, if_neg short] at failed
  simp only [resolve, ask, if_neg some, if_neg long, starts, parts]
  rw [walk_append]
  cases names : fs.walk linkMax (fs.start root) ((named root.text).map Part.ofPiece) with
  | error e' =>
    rcases parts_plain cut with plain | closed
    · rw [plain, names] at failed
      exact failed
    · rw [closed, walk_append, names] at failed
      exact failed
  | ok reached =>
    rcases parts_plain cut with plain | closed
    · simp [plain, names, Except.map] at failed
    · rw [closed, walk_append, names] at failed
      cases last : fs.walk reached.2 reached.1 [.trailing] with
      | ok there => simp [last, Except.map] at failed
      | error e' =>
        simp only [last, Except.map, Except.error.injEq] at failed
        exact absurd (.inr (failed ▸ walk_trailing last)) unknown

/-- What is canonicalised for the root is canonicalised for a path that joins it too. -/
theorem spelled_join {added : Path} (relative : added.absolute = false)
    (spelled : fs.spelled (join root added) = true) : fs.spelled root = true := by
  by_cases inhabited : root.text = []
  · have none : root.parts = [] := by
      simp [Path.parts, Path.asked, inhabited, components, named, pieces]
    have unrooted : root.absolute = false := by simp [Path.absolute, inhabited]
    simp [FileSystem.spelled, existing, none, unrooted]
  have starts : fs.start (join root added) = fs.start root := by
    simp only [start, absolute_join relative inhabited]
  by_cases cut : null ∈ root.text
  · unfold FileSystem.spelled existing Path.parts at spelled ⊢
    rwa [asked_join_cut relative cut, starts, absolute_join relative inhabited] at spelled
  obtain ⟨rest, parts, -⟩ := parts_join relative inhabited cut
  have longer : (named root.text).map Part.ofPiece <+: (join root added).parts := ⟨rest, parts.symm⟩
  -- what exists of the root, but for the slash at its end, exists of the longer path
  obtain ⟨initial, among, reached, walked, same, empty⟩ : ∃ initial : List Part,
      initial <+: (named root.text).map Part.ofPiece ∧
      ∃ reached, fs.walk linkMax (fs.start root) initial = .ok reached ∧
        fs.spells (fs.start root) (fs.existing root) = fs.spells (fs.start root) initial ∧
          (initial = [] → root.absolute = false → fs.existing root = []) := by
    obtain ⟨split, reached, walked⟩ := existing_spec fs root
    have among : fs.existing root <+: root.parts := ⟨_, split.symm⟩
    rcases parts_plain cut with plain | closed
    · exact ⟨_, plain ▸ among, reached, walked, rfl, fun none _ => none⟩
    rw [closed, List.prefix_concat_iff] at among
    rcases among with whole | among
    · rw [whole] at walked ⊢
      obtain ⟨middle, first⟩ : ∃ middle,
          fs.walk linkMax (fs.start root) ((named root.text).map Part.ofPiece) = .ok middle := by
        rw [walk_append] at walked
        cases first : fs.walk linkMax (fs.start root) ((named root.text).map Part.ofPiece) with
        | error e => simp [first] at walked
        | ok middle => exact ⟨middle, rfl⟩
      refine ⟨_, List.prefix_refl _, middle, first, spells_trailing walked, fun none unrooted => ?_⟩
      exact absurd (List.map_eq_nil_iff.1 none) (named_of_relative unrooted inhabited)
    · exact ⟨_, among, reached, walked, rfl, fun none _ => none⟩
  unfold FileSystem.spelled at spelled ⊢
  rw [starts, absolute_join relative inhabited] at spelled
  obtain ⟨more, whole⟩ := prefix_existing (among.trans longer) (starts ▸ walked)
  rw [← whole, Bool.or_eq_true] at spelled
  rw [Bool.or_eq_true]
  rcases spelled with none | all
  · simp only [Bool.and_eq_true, Bool.not_eq_true', List.isEmpty_iff, List.append_eq_nil_iff] at none
    simp [none.1, empty none.2.1 none.1]
  · rw [same]
    exact .inr (spells_append walked all)

theorem isPathSafe_throws {added : Path} (relative : added.absolute = false) :
    (∃ e, isPathSafe root fs (join root added) = .error e) ↔
      ∃ e, fs.weaklyCanonical (join root added) = .error e := by
  unfold isPathSafe
  constructor
  · rintro ⟨e, thrown⟩
    cases top : fs.weaklyCanonical root with
    | error e' =>
      refine weaklyCanonical_throws.2 ?_
      rcases weaklyCanonical_throws.1 ⟨e', top⟩ with ⟨e'', failed, unknown⟩ | long
      · exact .inl (resolve_join_unknown relative failed unknown)
      · refine .inr (Bool.eq_false_iff.2 fun spelled => ?_)
        simp [spelled_join relative spelled] at long
    | ok canonicalRoot =>
      rw [top] at thrown
      cases below : fs.weaklyCanonical (join root added) with
      | error e' => exact ⟨e', rfl⟩
      | ok canonical => simp [below] at thrown
  · rintro ⟨e, failed⟩
    cases top : fs.weaklyCanonical root with
    | error e' => exact ⟨e', rfl⟩
    | ok canonicalRoot => exact ⟨e, by simp [failed]⟩

/-- The queries on the path of an edit, if it is checked, find something or find nothing, and each entry on
the way, as far as the path exists, has a whole path that the system accepts. -/
def Queried (root : Path) (fs : FileSystem) (edit : ProposedEdit) : Prop :=
  edit.path ≠ [] → (ofBytes edit.path).absolute = false →
    (∀ e, fs.resolve (join root (ofBytes edit.path)) = .error e → e = .noEntry ∨ e = .notDirectory) ∧
      fs.spelled (join root (ofBytes edit.path)) = true

theorem applyEdit_throws_iff (fault : Fault) (edit : ProposedEdit) :
    (∃ e, applyEdit root fault fs edit = .error e) ↔ ¬ Queried root fs edit := by
  constructor
  · rintro ⟨e, thrown⟩ queried
    have unsafe' := applyEdit_throws thrown
    by_cases empty : edit.path = []
    · simp [applyEdit, empty] at thrown
    by_cases absolute : (ofBytes edit.path).absolute = true
    · simp [applyEdit, empty, absolute] at thrown
    have relative : (ofBytes edit.path).absolute = false := by simpa using absolute
    obtain ⟨found, spelled⟩ := queried empty relative
    rcases weaklyCanonical_throws.1 ((isPathSafe_throws relative).1 ⟨e, unsafe'⟩) with
      ⟨e', failed, unknown⟩ | long
    · exact unknown (found e' failed)
    · simp [spelled] at long
  · intro unqueried
    unfold Queried at unqueried
    push Not at unqueried
    obtain ⟨nonempty, relative, missed⟩ := unqueried
    have reason : (∃ e, fs.resolve (join root (ofBytes edit.path)) = .error e ∧ Unknown e) ∨
        fs.spelled (join root (ofBytes edit.path)) = false := by
      by_contra neither
      push Not at neither
      refine absurd (missed fun e failed => ?_) (by simpa using neither.2)
      exact not_not.1 (neither.1 e failed)
    obtain ⟨e', thrown⟩ := (isPathSafe_throws relative).2 (weaklyCanonical_throws.2 reason)
    refine ⟨e', ?_⟩
    simp only [applyEdit, if_neg nonempty, relative, Bool.false_eq_true, if_false, thrown]

/-! ### Batches -/

/-- A report is about an edit: its path stands in the list of its kind, before the cause in an error. -/
def About (edit : ProposedEdit) (report : Report) : Prop :=
  report = .written edit.path ∨ report = .rejected edit.path ∨
    ∃ cause, report = .failed (edit.path ++ ascii ": " ++ cause)

theorem writeResolved_about (fault : Fault) (created : List Loc) (resolved : Path) (edit : ProposedEdit) :
    About edit (writeResolved fault fs created resolved edit).report := by
  have unopened : About edit (.failed (edit.path ++ ascii ": could not open for writing")) :=
    .inr (.inr ⟨ascii "could not open for writing", by rw [List.append_assoc]; rfl⟩)
  unfold writeResolved
  split_ifs
  · exact unopened
  · cases fs.openForWriting resolved with
    | error e => exact unopened
    | ok loc =>
      cases fault with
      | writing kept noticed =>
        cases noticed with
        | false => exact .inl rfl
        | true => exact .inr (.inr ⟨ascii "write failed", by rw [List.append_assoc]; rfl⟩)
      | _ => exact .inl rfl

theorem applyEdit_about {fault : Fault} {edit : ProposedEdit} {applied : Applied}
    (done : applyEdit root fault fs edit = .ok applied) : About edit applied.report := by
  obtain rfl | ⟨made, -, -, ⟨e, rfl⟩ | rfl⟩ := applyEdit_cases done
  · exact .inr (.inl rfl)
  · exact .inr (.inr ⟨message e, rfl⟩)
  · exact writeResolved_about _ _ _ _

/-- The lists of an outcome are made of one report on each edit, in order. -/
def Accounts (edits : List ProposedEdit) (outcome : ApplyOutcome) : Prop :=
  ∃ reports, List.Forall₂ About edits reports ∧ outcome = reports.foldl ApplyOutcome.add {}

def Completes (root : Path) (faults : Nat → Fault) (edits : List ProposedEdit) (disk : DiskState) : Prop :=
  ∃ outcome disk', apply root faults edits disk = .ok outcome disk' ∧ Accounts edits outcome

theorem queried_of_done {fault : Fault} {edit : ProposedEdit} {applied : Applied}
    (done : applyEdit root fault fs edit = .ok applied) : Queried root fs edit := by
  by_contra unqueried
  obtain ⟨e, thrown⟩ := (applyEdit_throws_iff fault edit).2 unqueried
  simp [done] at thrown

theorem foldlM_accounts (faults : Nat → Fault) (edits : List ProposedEdit) (outcome : ApplyOutcome)
    {disk : DiskState} (met : EachMet root faults (fun fs _ edit => Queried root fs edit) disk edits) :
    ∃ reports disk', List.Forall₂ About edits reports ∧
      edits.foldlM (applyNext root faults) outcome disk =
          .ok (reports.foldl ApplyOutcome.add outcome) disk' := by
  induction edits generalizing outcome disk with
  | nil => exact ⟨[], disk, .nil, rfl⟩
  | cons edit rest ih =>
    rw [foldlM_applyNext_cons]
    obtain ⟨queried, onward⟩ := met
    cases done : applyEdit root (faults disk.tried) disk.fs edit with
    | error e => exact absurd queried ((applyEdit_throws_iff _ edit).1 ⟨e, done⟩)
    | ok applied =>
      rw [done] at onward
      obtain ⟨reports, disk', each, ran⟩ := ih (outcome.add applied.report) onward
      exact ⟨applied.report :: reports, disk', .cons (applyEdit_about done) each, ran⟩

theorem foldlM_queried {faults : Nat → Fault} {edits : List ProposedEdit} {outcome outcome' : ApplyOutcome}
    {disk disk' : DiskState} (ran : edits.foldlM (applyNext root faults) outcome disk =
      .ok outcome' disk') :
    EachMet root faults (fun fs _ edit => Queried root fs edit) disk edits := by
  induction edits generalizing outcome disk with
  | nil => trivial
  | cons edit rest ih =>
    rw [foldlM_applyNext_cons] at ran
    simp only [EachMet]
    cases done : applyEdit root (faults disk.tried) disk.fs edit with
    | error e =>
      rw [done] at ran
      cases ran
    | ok applied =>
      rw [done] at ran
      exact ⟨queried_of_done done, ih ran⟩

theorem apply_accounts {faults : Nat → Fault} {edits : List ProposedEdit} {outcome : ApplyOutcome}
    {disk disk' : DiskState} (ran : apply root faults edits disk = .ok outcome disk') :
        Accounts edits outcome := by
  obtain ⟨reports, disk'', each, same⟩ := foldlM_accounts faults edits {} (foldlM_queried ran)
  unfold apply at ran
  rw [same] at ran
  cases ran
  exact ⟨reports, each, rfl⟩

/-- A batch comes to its end, with one report on each edit, exactly when no status query fails in the
tree that an edit meets otherwise than by finding nothing. -/
theorem completes_iff (root : Path) (faults : Nat → Fault) (edits : List ProposedEdit) (disk : DiskState) :
    Completes root faults edits disk ↔ EachMet root faults (fun fs _ edit => Queried root fs edit)
        disk edits := by
  constructor
  · rintro ⟨outcome, disk', ran, -⟩
    exact foldlM_queried ran
  · intro met
    obtain ⟨reports, disk', -, ran⟩ := foldlM_accounts faults edits {} met
    exact ⟨_, disk', ran, apply_accounts ran⟩

/-- A codebase `/r` with a link to itself. -/
def loopedTree : FileSystem where
  tree := .sub Samples.r (.leaf (.ofAscii "loop" (by decide)) (.link (ofBytes (ascii "loop"))) .nil) .nil
  distinct := by decide
  cwd := []

/-- The first edit is written, and the second ends the call. -/
theorem loop_abandons :
    (∃ e disk', apply (ofBytes (ascii "/r")) (fun _ => .none) [editOf "a.cpp", editOf "loop"]
      { fs := loopedTree } = .error e disk' ∧ disk'.touched = [[Samples.aCpp, Samples.r]]) ∧
    ¬ Completes (ofBytes (ascii "/r")) (fun _ => .none) [editOf "a.cpp", editOf "loop"]
        { fs := loopedTree } := by
  have thrown : ∃ e disk', apply (ofBytes (ascii "/r")) (fun _ => .none) [editOf "a.cpp", editOf "loop"]
      { fs := loopedTree } = .error e disk' ∧ disk'.touched = [[Samples.aCpp, Samples.r]] :=
        ⟨_, _, rfl, rfl⟩
  refine ⟨thrown, ?_⟩
  rintro ⟨outcome, disk', returned, -⟩
  obtain ⟨e, left, ended, -⟩ := thrown
  rw [ended] at returned
  cases returned

end CppCoder.Abandonment
