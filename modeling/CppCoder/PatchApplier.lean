import CppCoder.Types
import CppCoder.Support.Disk
import CppCoder.Support.Program

/-! Writing proposed edits below a fixed root. The path that is checked is the canonical form of
`root/path`; the path that is then used is `root/path` itself, component by component. -/

namespace CppCoder.PatchApplier
open Support Utf8 Paths Disk FileSystem Program CppCoder.Types

structure ApplyOutcome where
  writtenPaths : List Bytes := []
  rejectedPaths : List Bytes := []
  errors : List Bytes := []
  deriving DecidableEq

/-- What the system does to one edit: nothing, make only `made` of its directories, refuse to open its
stream, or keep only the first `kept` bytes, which the stream notices before it is tested or not. -/
inductive Fault where
  | none
  | making (made : Nat) (e : Errno)
  | opening
  | writing (kept : Nat) (noticed : Bool)
  deriving DecidableEq

def Fault.refusal : Fault → Refusal
  | .making made e => some (made, e)
  | _ => .none

/-- The texts of `error_code::message`. -/
def message : Errno → Bytes
  | .noEntry => ascii "No such file or directory"
  | .notDirectory => ascii "Not a directory"
  | .isDirectory => ascii "Is a directory"
  | .exists => ascii "File exists"
  | .tooManyLinks => ascii "Too many levels of symbolic links"
  | .nameTooLong => ascii "File name too long"
  | .accessDenied => ascii "Permission denied"
  | .io => ascii "Input/output error"

inductive Report where
  | written (path : Bytes)
  | rejected (path : Bytes)
  | failed (text : Bytes)
  deriving DecidableEq

def ApplyOutcome.add (outcome : ApplyOutcome) : Report → ApplyOutcome
  | .written path => { outcome with writtenPaths := outcome.writtenPaths ++ [path] }
  | .rejected path => { outcome with rejectedPaths := outcome.rejectedPaths ++ [path] }
  | .failed text => { outcome with errors := outcome.errors ++ [text] }

/-- One edit's effect: the tree after it, the places it created, truncated or wrote, its report. -/
structure Applied where
  fs : FileSystem
  touched : List Loc
  report : Report

def isPathSafe (root : Path) (fs : FileSystem) (resolved : Path) : Except Errno Bool :=
  match fs.weaklyCanonical root with
  | .error e => .error e
  | .ok canonicalRoot =>
      match fs.weaklyCanonical resolved with
      | .error e => .error e
      | .ok canonicalResolved => .ok (canonicalRoot.elements.isPrefixOf canonicalResolved.elements)

/-- `std::ofstream` with truncation, the insertion of the content, and the test of the stream. -/
def writeResolved (fault : Fault) (fs : FileSystem) (created : List Loc) (resolved : Path)
    (edit : ProposedEdit) : Applied :=
  let unopened : Applied :=
    ⟨fs, created, .failed (edit.path ++ ascii ": could not open for writing")⟩
  if fault = .opening then unopened
  else match fs.openForWriting resolved with
    | .error _ => unopened
    | .ok target =>
        let stored := match fault with
          | .writing kept _ => edit.newContent.take kept
          | _ => edit.newContent
        let report := match fault with
          | .writing _ true => .failed (edit.path ++ ascii ": write failed")
          | _ => .written edit.path
        -- a device takes the bytes without a change to the tree
        let after := if fs.kind target = some (.leaf .special) then fs else fs.writeFile target stored
        ⟨after, created ++ [target], report⟩

theorem writeResolved_frame (fault : Fault) (fs : FileSystem) (created : List Loc) (resolved : Path)
    (edit : ProposedEdit) :
    Grows fs (writeResolved fault fs created resolved edit).fs ∧
      ∀ loc, loc ∉ (writeResolved fault fs created resolved edit).touched →
        (writeResolved fault fs created resolved edit).fs.kind loc = fs.kind loc := by
  unfold writeResolved
  split_ifs with refused
  · exact ⟨.refl fs, fun _ _ => rfl⟩
  · cases opened : fs.openForWriting resolved with
    | error e => exact ⟨.refl fs, fun _ _ => rfl⟩
    | ok target =>
      simp only []
      split_ifs with device
      · exact ⟨.refl fs, fun _ _ => rfl⟩
      · obtain ⟨-, went⟩ := openForWriting_ok opened
        refine ⟨grows_opened went device _, fun loc outside => ?_⟩
        have elsewhere : loc ≠ target := by
          rintro rfl
          simp at outside
        obtain ⟨readable, written⟩ := kind_opened went _
        rw [written, if_neg elsewhere]

def applyEdit (root : Path) (fault : Fault) (fs : FileSystem) (edit : ProposedEdit) :
    Except Errno Applied :=
  if edit.path = [] then .ok ⟨fs, [], .rejected edit.path⟩
  else
    let candidate := ofBytes edit.path
    if candidate.absolute then .ok ⟨fs, [], .rejected edit.path⟩
    else
      let resolved := join root candidate
      match isPathSafe root fs resolved with
      | .error e => .error e
      | .ok false => .ok ⟨fs, [], .rejected edit.path⟩
      | .ok true =>
          if resolved.parent.isEmpty then .ok (writeResolved fault fs [] resolved edit)
          else
            let made := fs.createDirectories fault.refusal resolved.parent
            match made.ended with
            | .error e =>
                .ok ⟨made.fs, made.created, .failed (edit.path ++ ascii ": " ++ message e)⟩
            | .ok _ => .ok (writeResolved fault made.fs made.created resolved edit)

/-- What one edit comes to: it is refused, the directories for it cannot be made, or it is opened in the
tree with these directories. -/
theorem applyEdit_cases {root : Path} {fault : Fault} {fs : FileSystem} {edit : ProposedEdit}
    {applied : Applied} (done : applyEdit root fault fs edit = .ok applied) :
    applied = ⟨fs, [], .rejected edit.path⟩ ∨ ∃ made : Made, Grows fs made.fs ∧
      (∀ loc, made.fs.Takes loc → made.fs.kind loc = fs.kind loc) ∧
      ((∃ e, applied = ⟨made.fs, made.created, .failed (edit.path ++ ascii ": " ++ message e)⟩) ∨
        applied = writeResolved fault made.fs made.created (join root (ofBytes edit.path)) edit) := by
  unfold applyEdit at done
  split_ifs at done
  · exact .inl (Except.ok.inj done).symm
  dsimp only at done
  split at done
  · exact .inl (Except.ok.inj done).symm
  cases safe : isPathSafe root fs (join root (ofBytes edit.path)) with
  | error e => simp [safe] at done
  | ok inside =>
    rw [safe] at done
    cases inside with
    | false => exact .inl (Except.ok.inj done).symm
    | true =>
      dsimp only at done
      split at done
      · exact .inr ⟨⟨fs, [], .ok ([], 0)⟩, .refl fs, fun _ _ => rfl, .inr (Except.ok.inj done).symm⟩
      · refine .inr ⟨fs.createDirectories fault.refusal (join root (ofBytes edit.path)).parent,
          (createDirectories_sound rfl).1, fun _ takes => createDirectories_kind rfl takes, ?_⟩
        cases ended : (fs.createDirectories fault.refusal (join root (ofBytes edit.path)).parent).ended with
        | error e =>
          rw [ended] at done
          exact .inl ⟨e, (Except.ok.inj done).symm⟩
        | ok _ =>
          rw [ended] at done
          exact .inr (Except.ok.inj done).symm

/-- The tree on disk, the places touched so far, and how many edits were tried. -/
structure DiskState where
  fs : FileSystem
  touched : List Loc := []
  tried : Nat := 0

def DiskState.after (disk : DiskState) (applied : Applied) : DiskState :=
  { fs := applied.fs, touched := disk.touched ++ applied.touched, tried := disk.tried + 1 }

def applyNext (root : Path) (faults : Nat → Fault) (outcome : ApplyOutcome) (edit : ProposedEdit) :
    EStateM Errno DiskState ApplyOutcome := do
  let disk ← get
  match applyEdit root (faults disk.tried) disk.fs edit with
  | .error e => throw e
  | .ok applied =>
      set (disk.after applied)
      return outcome.add applied.report

/-- The edits of a batch one after another, each on the tree that the ones before it left. -/
def apply (root : Path) (faults : Nat → Fault) (edits : List ProposedEdit) :
    EStateM Errno DiskState ApplyOutcome := edits.foldlM (applyNext root faults) {}

theorem applyNext_run (root : Path) (faults : Nat → Fault) (outcome : ApplyOutcome) (edit : ProposedEdit)
    (disk : DiskState) : applyNext root faults outcome edit disk =
      match applyEdit root (faults disk.tried) disk.fs edit with
      | .error e => .error e disk
      | .ok applied => .ok (outcome.add applied.report) (disk.after applied) := by
  unfold applyNext
  rw [bind_run]
  change (match applyEdit root (faults disk.tried) disk.fs edit with
    | .error e => throw e
    | .ok applied => do
        set (disk.after applied)
        return outcome.add applied.report : EStateM Errno DiskState ApplyOutcome) disk = _
  cases applyEdit root (faults disk.tried) disk.fs edit <;> rfl

theorem foldlM_applyNext_cons {root : Path} (faults : Nat → Fault) (edit : ProposedEdit)
    (rest : List ProposedEdit) (outcome : ApplyOutcome) (disk : DiskState) :
    (edit :: rest).foldlM (applyNext root faults) outcome disk =
      match applyEdit root (faults disk.tried) disk.fs edit with
      | .error e => .error e disk
      | .ok applied => rest.foldlM (applyNext root faults) (outcome.add applied.report)
          (disk.after applied) := by
  rw [List.foldlM_cons, bind_run, applyNext_run]
  cases applyEdit root (faults disk.tried) disk.fs edit <;> rfl

/-! ### What is reported -/

def Report.text : Report → Bytes
  | .written path => path
  | .rejected path => path
  | .failed text => text

theorem valid_message (e : Errno) : Valid (message e) := by cases e <;> exact valid_ascii _

theorem writeResolved_text (fault : Fault) (fs : FileSystem) (created : List Loc) (resolved : Path)
    {edit : ProposedEdit} (valid : Valid edit.path) :
    Valid (writeResolved fault fs created resolved edit).report.text := by
  unfold writeResolved
  split_ifs
  · exact (valid_append_ascii _ _).2 valid
  · cases fs.openForWriting resolved with
    | error e => exact (valid_append_ascii _ _).2 valid
    | ok target =>
      cases fault with
      | writing kept noticed =>
        cases noticed with
        | false => exact valid
        | true => exact (valid_append_ascii _ _).2 valid
      | _ => exact valid

theorem applyEdit_text {root : Path} {fault : Fault} {fs : FileSystem} {edit : ProposedEdit}
    {applied : Applied} (done : applyEdit root fault fs edit = .ok applied)
    (valid : Valid edit.path) :
        Valid applied.report.text := by
  rcases applyEdit_cases done with rfl | ⟨made, -, -, ⟨e, rfl⟩ | rfl⟩
  · exact valid
  · exact ((valid_append_ascii _ _).2 valid).append (valid_message e)
  · exact writeResolved_text _ _ _ _ valid

def ApplyOutcome.texts (outcome : ApplyOutcome) : List Bytes :=
  outcome.writtenPaths ++ outcome.rejectedPaths ++ outcome.errors

theorem mem_texts_add {outcome : ApplyOutcome} {report : Report} {text : Bytes}
    (member : text ∈ (outcome.add report).texts) : text ∈ outcome.texts ∨ text = report.text := by
  cases report <;> simp [ApplyOutcome.add, ApplyOutcome.texts, Report.text] at member ⊢ <;> tauto

theorem apply_texts (root : Path) (faults : Nat → Fault) {edits : List ProposedEdit}
    (valid : ∀ e ∈ edits, Valid e.path) (disk : DiskState) :
    Runs (apply root faults edits) disk (fun outcome _ => ∀ text ∈ outcome.texts, Valid text)
        fun _ _ => True := by
  apply Runs.foldlM (fun _ (outcome : ApplyOutcome) _ => ∀ text ∈ outcome.texts, Valid text) edits
  · intro read edit rest outcome disk split texts
    refine Runs.bind (Runs.get ?_)
    cases done : applyEdit root (faults disk.tried) disk.fs edit with
    | error e => exact Runs.throw trivial
    | ok applied =>
      refine Runs.bind (Runs.modify ?_)
      refine Runs.pure fun text member => ?_
      rcases mem_texts_add member with old | rfl
      · exact texts text old
      · exact applyEdit_text done (valid edit (by simp [← split]))
  · exact fun _ none => absurd none List.not_mem_nil

end CppCoder.PatchApplier
