import CppCoder.PatchApplier

/-! What a history of edits leaves in the tree: every file that one of them went to has the content of
the last that did. -/

namespace CppCoder.LastEdits
open Support Utf8 Paths Disk FileSystem Program CppCoder.Types PatchApplier

variable {fs fs' : FileSystem} {root : Path}

def target (root : Path) (fs : FileSystem) (edit : ProposedEdit) : Except Errno Loc :=
  fs.openForWriting (join root (ofBytes edit.path))

def lastTo (root : Path) (fs : FileSystem) (loc : Loc) (edits : List ProposedEdit) : Option ProposedEdit :=
  (edits.filter fun edit => decide (target root fs edit = .ok loc)).getLast?

theorem lastTo_append (loc : Loc) (earlier later : List ProposedEdit) :
    lastTo root fs loc (earlier ++ later) = (lastTo root fs loc later).or (lastTo root fs loc earlier) := by
  unfold lastTo
  rw [List.filter_append, List.getLast?_append]

theorem lastTo_singleton (loc : Loc) (edit : ProposedEdit) :
    lastTo root fs loc [edit] = if target root fs edit = .ok loc then some edit else none := by
  unfold lastTo
  split_ifs with here <;> simp [here]

def contentAfter (root : Path) (fs : FileSystem) (source : Loc × Bytes)
    (edits : List ProposedEdit) : Bytes :=
  match lastTo root fs source.1 edits with
  | some edit => edit.newContent
  | none => source.2

theorem target_grows (grows : Grows fs fs') {edit : ProposedEdit} {loc : Loc} (takes : fs'.Takes loc)
    (opened : target root fs edit = .ok loc) : target root fs' edit = .ok loc := by
  unfold target at *
  exact grows.openForWriting takes opened

/-- All edits of a history were written, and their files are as the last of them left them. -/
structure Holds (root : Path) (fs : FileSystem) (history : List ProposedEdit) : Prop where
  placed : ∀ edit ∈ history, ∃ loc, target root fs edit = .ok loc ∧ fs.Takes loc
  latest : ∀ loc edit content readable, lastTo root fs loc history = some edit →
    fs.kind loc = some (.leaf (.file content readable)) → content = edit.newContent

theorem Holds.nil (root : Path) (fs : FileSystem) : Holds root fs [] := by
  refine ⟨by simp, fun loc edit content readable last => ?_⟩
  cases last

theorem Holds.target_iff {history : List ProposedEdit} (holds : Holds root fs history)
    (grows : Grows fs fs') {edit : ProposedEdit} (member : edit ∈ history) (loc : Loc) :
    target root fs' edit = .ok loc ↔ target root fs edit = .ok loc := by
  obtain ⟨place, opened, takes⟩ := holds.placed edit member
  rw [opened, target_grows grows (grows.takes takes) opened]

theorem Holds.lastTo_eq {history : List ProposedEdit} (holds : Holds root fs history) (grows : Grows fs fs')
    (loc : Loc) : lastTo root fs' loc history = lastTo root fs loc history := by
  unfold lastTo
  rw [List.filter_congr fun edit member => decide_eq_decide.2 (holds.target_iff grows member loc)]

/-- The effect of one edit that was written: its file has its content, the others are as they were. -/
structure Wrote (root : Path) (fs fs' : FileSystem) (edit : ProposedEdit) (loc : Loc) : Prop where
  grows : Grows fs fs'
  opens : target root fs' edit = .ok loc
  takes : fs'.Takes loc
  content : ∀ content readable, fs'.kind loc = some (.leaf (.file content readable)) → content =
    edit.newContent
  frame : ∀ other, other ≠ loc → fs'.Takes other → fs'.kind other = fs.kind other

theorem Wrote.holds {history : List ProposedEdit} {edit : ProposedEdit} {loc : Loc}
    (wrote : Wrote root fs fs' edit loc) (holds : Holds root fs history) :
    Holds root fs' (history ++ [edit]) := by
  refine ⟨fun other member => ?_, fun place last content readable found there => ?_⟩
  · rcases List.mem_append.1 member with earlier | now
    · obtain ⟨place, opened, takes⟩ := holds.placed other earlier
      have still := wrote.grows.takes takes
      exact ⟨place, target_grows wrote.grows still opened, still⟩
    · cases List.mem_singleton.1 now
      exact ⟨loc, wrote.opens, wrote.takes⟩
  · rw [lastTo_append, lastTo_singleton, wrote.opens] at found
    by_cases here : loc = place
    · subst here
      rw [if_pos rfl] at found
      cases found
      exact wrote.content content readable there
    · rw [if_neg (by simpa using here), Option.none_or, holds.lastTo_eq wrote.grows] at found
      rw [wrote.frame place (Ne.symm here) (.inr ⟨content, readable, there⟩)] at there
      exact holds.latest place last content readable found there

theorem writeResolved_wrote {created : List Loc} {edit : ProposedEdit} {path : Bytes}
    (written : (writeResolved .none fs created (join root (ofBytes edit.path)) edit).report =
      .written path) :
    ∃ loc, Wrote root fs (writeResolved .none fs created (join root (ofBytes edit.path)) edit).fs
        edit loc := by
  have grows := (writeResolved_frame .none fs created (join root (ofBytes edit.path)) edit).1
  unfold writeResolved at *
  rw [if_neg (by simp)] at *
  cases opened : fs.openForWriting (join root (ofBytes edit.path)) with
  | error e => simp [opened] at written
  | ok loc =>
    rw [opened] at grows
    dsimp only at *
    refine ⟨loc, ?_⟩
    split_ifs at grows ⊢ with device
    · refine ⟨grows, opened, .inl device, fun content readable file => ?_, fun _ _ _ => rfl⟩
      rw [device] at file
      cases file
    · obtain ⟨readable, after⟩ := kind_opened (openForWriting_ok opened).2 edit.newContent
      have here := (after loc).trans (if_pos rfl)
      have takes : (fs.writeFile loc edit.newContent).Takes loc := .inr ⟨_, _, here⟩
      refine ⟨grows, target_grows grows takes opened, takes, fun content readable file => ?_,
        fun other elsewhere _ => ?_⟩
      · rw [here] at file
        cases file
        rfl
      · rw [after, if_neg elsewhere]

theorem applyEdit_grows {fault : Fault} {edit : ProposedEdit} {applied : Applied}
    (done : applyEdit root fault fs edit = .ok applied) : Grows fs applied.fs := by
  rcases applyEdit_cases done with rfl | ⟨made, grows, -, ⟨e, rfl⟩ | rfl⟩
  · exact .refl fs
  · exact grows
  · exact grows.trans (writeResolved_frame _ _ _ _ _).1

theorem applyEdit_wrote {edit : ProposedEdit} {applied : Applied} {path : Bytes}
    (done : applyEdit root .none fs edit = .ok applied) (written : applied.report = .written path) :
    ∃ loc, Wrote root fs applied.fs edit loc := by
  rcases applyEdit_cases done with rfl | ⟨made, grows, frame, ⟨e, rfl⟩ | rfl⟩
  · cases written
  · cases written
  · obtain ⟨loc, wrote⟩ := writeResolved_wrote written
    refine ⟨loc, grows.trans wrote.grows, wrote.opens, wrote.takes, wrote.content,
      fun other elsewhere takes => ?_⟩
    have same := wrote.frame other elsewhere takes
    rw [same]
    apply frame other
    unfold Takes at *
    rwa [← same]

theorem apply_holds {faults : Nat → Fault} (sound : ∀ n, faults n = .none) (edits : List ProposedEdit)
    (disk : DiskState) :
    Runs (apply root faults edits) disk
      (fun outcome disk' => Grows disk.fs disk'.fs ∧ (outcome.rejectedPaths = [] → outcome.errors = [] →
        ∀ history, Holds root disk.fs history → Holds root disk'.fs (history ++ edits)))
      fun _ disk' => Grows disk.fs disk'.fs := by
  refine Runs.foldlM (fun read (outcome : ApplyOutcome) (disk' : DiskState) => Grows disk.fs disk'.fs ∧
    (outcome.rejectedPaths = [] → outcome.errors = [] →
      ∀ history, Holds root disk.fs history → Holds root disk'.fs (history ++ read))) edits ?_ ?_
  · rintro read edit rest outcome disk' - ⟨grows, holds⟩
    refine Runs.bind (Runs.get ?_)
    cases done : applyEdit root (faults disk'.tried) disk'.fs edit with
    | error e => exact Runs.throw grows
    | ok applied =>
      refine Runs.bind (Runs.modify (Runs.pure ⟨grows.trans (applyEdit_grows done), ?_⟩))
      intro accepted flawless history held
      rw [sound] at done
      cases report : applied.report with
      | rejected path => simp [report, ApplyOutcome.add] at accepted
      | failed text => simp [report, ApplyOutcome.add] at flawless
      | written path =>
        rw [report] at accepted flawless
        obtain ⟨loc, wrote⟩ := applyEdit_wrote done report
        rw [← List.append_assoc]
        exact wrote.holds (holds accepted flawless history held)
  · exact ⟨.refl _, fun _ _ history held => by simpa using held⟩

end CppCoder.LastEdits
