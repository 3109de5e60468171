import CppCoder.LastEdits
import CppCoder.Samples

/-! What a batch leaves in the files of its edits. A stream empties its file when it is opened, and what
it takes later is lost with it; whether it is reported depends on when the loss is noticed. -/

namespace CppCoder.FailedWrites
open Support Utf8 Paths Support.Tree Disk FileSystem Program CppCoder.Types PatchApplier LastEdits

variable {root : Path} {fs fs' fs₀ : FileSystem}

def streamTo (root : Path) (fault : Fault) (fs : FileSystem) (edit : ProposedEdit) : Option Loc :=
  if edit.path = [] ∨ (ofBytes edit.path).absolute = true ∨ fault = .opening then none
  else
    let resolved := join root (ofBytes edit.path)
    match isPathSafe root fs resolved with
    | .ok true =>
        if resolved.parent.isEmpty then (target root fs edit).toOption
        else
          let made := fs.createDirectories fault.refusal resolved.parent
          match made.ended with
          | .error _ => none
          | .ok _ => (target root made.fs edit).toOption
    | _ => none

/-- The bytes of an edit that reach the disk. -/
def stored (fault : Fault) (edit : ProposedEdit) : Bytes :=
  match fault with
  | .writing kept _ => edit.newContent.take kept
  | _ => edit.newContent

/-- The stream fails before it is tested. -/
def Noticed (fault : Fault) : Prop := ∃ kept, fault = .writing kept true

/-- The effect of a stream: its file has what reached the disk, a device has nothing, and other files
are as they were. -/
structure Streamed (root : Path) (fs fs' : FileSystem) (fault : Fault) (edit : ProposedEdit) (loc : Loc) :
    Prop where
  grows : Grows fs fs'
  opens : target root fs' edit = .ok loc
  takes : fs'.Takes loc
  holds : fs.kind loc = some (.leaf .special) ∧ fs'.kind loc = some (.leaf .special) ∨
    fs.kind loc ≠ some (.leaf .special) ∧ ∃ readable, fs'.kind loc =
      some (.leaf (.file (stored fault edit) readable))
  frame : ∀ other, other ≠ loc → fs'.Takes other → fs'.kind other = fs.kind other

theorem writeResolved_stream {fault : Fault} {created : List Loc} {edit : ProposedEdit} {applied : Applied}
    (done : applied = writeResolved fault fs created (join root (ofBytes edit.path)) edit) :
    (fault = .opening ∨ ∃ e, target root fs edit = .error e) ∧ applied.fs = fs ∧
        (∃ text, applied.report = .failed text) ∨
      ∃ loc, fault ≠ .opening ∧ target root fs edit = .ok loc ∧ Streamed root fs applied.fs fault edit loc ∧
        ((∃ path, applied.report = .written path) ↔ ¬ Noticed fault) := by
  have grows : Grows fs applied.fs := by
    rw [done]
    exact (writeResolved_frame fault fs created (join root (ofBytes edit.path)) edit).1
  unfold writeResolved at done
  by_cases refused : fault = .opening
  · rw [if_pos refused] at done
    subst done
    exact .inl ⟨.inl refused, rfl, _, rfl⟩
  · rw [if_neg refused] at done
    cases opened : fs.openForWriting (join root (ofBytes edit.path)) with
    | error e =>
      rw [opened] at done
      subst done
      exact .inl ⟨.inr ⟨e, opened⟩, rfl, _, rfl⟩
    | ok loc =>
      rw [opened] at done
      refine .inr ⟨loc, refused, opened, ?_, ?_⟩
      · dsimp only at done
        by_cases device : fs.kind loc = some (.leaf .special)
        · have same : applied.fs = fs := by rw [done, if_pos device]
          rw [same]
          exact ⟨.refl fs, opened, .inl device, .inl ⟨device, device⟩, fun _ _ _ => rfl⟩
        · have after : applied.fs = fs.writeFile loc (stored fault edit) := by
            rw [done, if_neg device]
            cases fault <;> rfl
          obtain ⟨readable, kinds⟩ := kind_opened (openForWriting_ok opened).2 (stored fault edit)
          have here := (kinds loc).trans (if_pos rfl)
          rw [after] at grows ⊢
          have takes : (fs.writeFile loc (stored fault edit)).Takes loc := .inr ⟨_, _, here⟩
          refine ⟨grows, target_grows grows takes opened, takes, .inr ⟨device, readable, here⟩, ?_⟩
          intro other elsewhere _
          rw [kinds, if_neg elsewhere]
      · rw [done]
        unfold Noticed
        cases fault with
        | writing kept noticed => cases noticed <;> simp
        | _ => simp

/-- The effect of an edit: either no stream is opened, and every file is as it was, or one is. -/
inductive Effect (root : Path) (fault : Fault) (fs : FileSystem) (edit : ProposedEdit)
    (applied : Applied) : Prop where
  | unopened (none : streamTo root fault fs edit = none)
      (report : ¬ ∃ path, applied.report = .written path) (grows : Grows fs applied.fs)
      (frame : ∀ loc, applied.fs.Takes loc → applied.fs.kind loc = fs.kind loc)
  | opened (loc : Loc) (some : streamTo root fault fs edit = some loc)
      (streamed : Streamed root fs applied.fs fault edit loc)
      (report : (∃ path, applied.report = .written path) ↔ ¬ Noticed fault)

theorem effect_of_stream {fault : Fault} {edit : ProposedEdit} {applied : Applied} {made : FileSystem}
    {created : List Loc} (grows : Grows fs made)
    (frame : ∀ loc, made.Takes loc → made.kind loc = fs.kind loc)
    (place : streamTo root fault fs edit = if fault =
      .opening then none else (target root made edit).toOption)
    (done : applied = writeResolved fault made created (join root (ofBytes edit.path)) edit) :
    Effect root fault fs edit applied := by
  obtain ⟨closed, same, text, report⟩ | ⟨loc, willing, opened, streamed, report⟩ :=
    writeResolved_stream done
  · apply Effect.unopened
    · rw [place]
      split_ifs with refused
      · rfl
      · obtain ⟨e, failed⟩ := closed.resolve_left refused
        simp [failed, Except.toOption]
    · simp [report]
    · rw [same]
      exact grows
    · rw [same]
      exact frame
  · refine .opened loc ?_ ⟨grows.trans streamed.grows, streamed.opens, streamed.takes, ?_, ?_⟩ report
    · rw [place, if_neg willing, opened]
      rfl
    · -- the directories made on the way neither remove a device nor put one there
      have device : fs.kind loc = some (.leaf .special) ↔ made.kind loc = some (.leaf .special) := by
        constructor
        · intro here
          obtain ⟨now, there, same | ⟨_, _, _, _, file, -⟩⟩ := grows.alike loc _ here
          · rw [there, same]
          · cases file
        · intro here
          rw [← frame loc (.inl here)]
          exact here
      obtain ⟨here, still⟩ | ⟨elsewhere, file⟩ := streamed.holds
      · exact .inl ⟨device.2 here, still⟩
      · exact .inr ⟨fun here => elsewhere (device.1 here), file⟩
    · intro other elsewhere takes
      have same := streamed.frame other elsewhere takes
      rw [same]
      apply frame
      unfold Takes at *
      rwa [← same]

theorem applyEdit_effect {fault : Fault} {edit : ProposedEdit} {applied : Applied}
    (done : applyEdit root fault fs edit = .ok applied) : Effect root fault fs edit applied := by
  have rejected : streamTo root fault fs edit = none → applied = ⟨fs, [], .rejected edit.path⟩ →
      Effect root fault fs edit applied := by
    intro none same
    rw [same]
    exact .unopened none (by simp) (.refl fs) fun _ _ => rfl
  unfold applyEdit at done
  by_cases empty : edit.path = []
  · rw [if_pos empty] at done
    exact rejected (by simp [streamTo, empty]) (Except.ok.inj done).symm
  rw [if_neg empty] at done
  by_cases absolute : (ofBytes edit.path).absolute = true
  · rw [if_pos absolute] at done
    exact rejected (by simp [streamTo, absolute]) (Except.ok.inj done).symm
  rw [if_neg absolute] at done
  dsimp only at done
  cases safe : isPathSafe root fs (join root (ofBytes edit.path)) with
  | error e => simp [safe] at done
  | ok inside =>
    rw [safe] at done
    cases inside with
    | false => exact rejected (by simp [streamTo, safe]) (Except.ok.inj done).symm
    | true =>
      dsimp only at done
      by_cases top : (join root (ofBytes edit.path)).parent.isEmpty = true
      · rw [if_pos top] at done
        refine effect_of_stream (.refl fs) (fun _ _ => rfl) ?_ (Except.ok.inj done).symm
        by_cases refused : fault = .opening
        · simp [streamTo, refused]
        · simp [streamTo, empty, absolute, refused, safe, top]
      · rw [if_neg top] at done
        generalize making : fs.createDirectories fault.refusal
          (join root (ofBytes edit.path)).parent = made at done
        have grows := (createDirectories_sound making).1
        have frame := fun loc => @createDirectories_kind fs _ _ _ making loc
        cases ended : made.ended with
        | error e =>
          rw [ended] at done
          have same := (Except.ok.inj done).symm
          refine .unopened ?_ (by simp [same]) (by rw [same]; exact grows) (by rw [same]; exact frame)
          simp [streamTo, safe, top, making, ended]
        | ok up =>
          rw [ended] at done
          refine effect_of_stream grows frame ?_ (Except.ok.inj done).symm
          by_cases refused : fault = .opening
          · simp [streamTo, refused]
          · simp [streamTo, empty, absolute, refused, safe, top, making, ended]

/-! ### Batches -/

/-- An edit that was tried: what its stream met, the tree before it, and what it came to. -/
structure Tried where
  edit : ProposedEdit
  fault : Fault
  before : FileSystem
  applied : Applied

def Tried.stream (root : Path) (t : Tried) : Option Loc := streamTo root t.fault t.before t.edit

/-- Its report is in `writtenPaths`. -/
def Tried.Written (t : Tried) : Prop := ∃ path, t.applied.report = .written path

/-- The edits of a batch in order, up to a throw. -/
def tried (root : Path) (faults : Nat → Fault) : DiskState → List ProposedEdit → List Tried
  | _, [] => []
  | disk, edit :: rest =>
      match applyEdit root (faults disk.tried) disk.fs edit with
      | .error _ => []
      | .ok applied => ⟨edit, faults disk.tried, disk.fs, applied⟩ :: tried root faults
        (disk.after applied) rest

/-- What a part of a batch has done to the tree `fs₀`. -/
structure Done (root : Path) (fs₀ : FileSystem) (entries : List Tried) (fs : FileSystem) : Prop where
  grows : Grows fs₀ fs
  report : ∀ t ∈ entries, t.Written ↔ (∃ loc, t.stream root = some loc) ∧ ¬ Noticed t.fault
  placed : ∀ t ∈ entries, ∀ loc, t.stream root = some loc → target root fs t.edit = .ok loc ∧ fs.Takes loc
  untouched : ∀ loc, fs.Takes loc → (∀ t ∈ entries, t.stream root ≠ some loc) → fs.kind loc = fs₀.kind loc
  latest : ∀ pre t post loc, entries = pre ++ t :: post → t.stream root = some loc →
    (∀ other ∈ post, other.stream root ≠ some loc) →
    t.before.kind loc = some (.leaf .special) ∧ fs.kind loc = some (.leaf .special) ∨
      t.before.kind loc ≠ some (.leaf .special) ∧
        ∃ readable, fs.kind loc = some (.leaf (.file (stored t.fault t.edit) readable))

theorem Done.nil (root : Path) (fs : FileSystem) : Done root fs [] fs := by
  refine ⟨.refl fs, by simp, by simp, fun _ _ _ => rfl, fun pre t post loc split => ?_⟩
  simp at split

theorem split_concat {α : Type} {entries pre post : List α} {a b : α}
    (split : entries ++ [a] = pre ++ b :: post) :
    (post = [] ∧ b = a ∧ pre = entries) ∨ ∃ earlier, post = earlier ++ [a] ∧ entries = pre ++
        b :: earlier := by
  obtain rfl | ⟨earlier, last, rfl⟩ := List.eq_nil_or_concat' post
  · obtain ⟨same, tail⟩ := List.append_inj' split rfl
    exact .inl ⟨rfl, (List.cons.inj tail).1.symm, same.symm⟩
  · rw [← List.cons_append, ← List.append_assoc] at split
    obtain ⟨same, tail⟩ := List.append_inj' split rfl
    exact .inr ⟨earlier, by rw [(List.cons.inj tail).1], same⟩

theorem Done.still {entries : List Tried} (done : Done root fs₀ entries fs) {loc : Loc}
    (same : fs'.kind loc = fs.kind loc) {pre post : List Tried} {t : Tried}
    (split : entries = pre ++ t :: post) (opened : t.stream root = some loc)
    (last : ∀ other ∈ post, other.stream root ≠ some loc) :
    t.before.kind loc = some (.leaf .special) ∧ fs'.kind loc = some (.leaf .special) ∨
      t.before.kind loc ≠ some (.leaf .special) ∧
        ∃ readable, fs'.kind loc = some (.leaf (.file (stored t.fault t.edit) readable)) := by
  rw [same]
  exact done.latest pre t post loc split opened last

theorem Done.kept {entries : List Tried} (done : Done root fs₀ entries fs) (grows : Grows fs fs')
    {t : Tried} (member : t ∈ entries) {loc : Loc} (opened : t.stream root = some loc) :
    target root fs' t.edit = .ok loc ∧ fs'.Takes loc := by
  obtain ⟨there, takes⟩ := done.placed t member loc opened
  have still := grows.takes takes
  exact ⟨target_grows grows still there, still⟩

theorem Done.left_alone {entries : List Tried} (done : Done root fs₀ entries fs) {loc : Loc}
    (same : fs'.kind loc = fs.kind loc) (takes : fs'.Takes loc)
    (apart : ∀ t ∈ entries, t.stream root ≠ some loc) : fs'.kind loc = fs₀.kind loc := by
  rw [same]
  apply done.untouched loc
  · unfold Takes at *
    rwa [← same]
  · exact apart

theorem Done.concat {entries : List Tried} (done : Done root fs₀ entries fs) {fault : Fault}
    {edit : ProposedEdit} {applied : Applied} (effect : Effect root fault fs edit applied) :
    Done root fs₀ (entries ++ [⟨edit, fault, fs, applied⟩]) applied.fs := by
  cases effect with
  | unopened none report grows frame =>
    have closed : Tried.stream root ⟨edit, fault, fs, applied⟩ = Option.none := none
    refine ⟨done.grows.trans grows, fun t member => ?_, fun t member loc opened => ?_,
      fun loc takes apart => ?_, fun pre t post loc split opened last => ?_⟩
    · obtain old | new := List.mem_append.1 member
      · exact done.report t old
      · rw [List.mem_singleton.1 new, closed]
        exact iff_of_false report (by simp)
    · obtain old | new := List.mem_append.1 member
      · exact done.kept grows old opened
      · rw [List.mem_singleton.1 new, closed] at opened
        cases opened
    · exact done.left_alone (frame loc takes) takes fun t member =>
        apart t (List.mem_append_left _ member)
    · obtain ⟨-, rfl, -⟩ | ⟨earlier, rfl, before⟩ := split_concat split
      · rw [closed] at opened
        cases opened
      · have takes := (done.placed t (by simp [before]) loc opened).2
        exact done.still (frame loc (grows.takes takes)) before opened
          fun other member => last other (List.mem_append_left _ member)
  | opened place some streamed report =>
    have here : Tried.stream root ⟨edit, fault, fs, applied⟩ = Option.some place := some
    refine ⟨done.grows.trans streamed.grows, fun t member => ?_, fun t member loc opened => ?_,
      fun loc takes apart => ?_, fun pre t post loc split opened last => ?_⟩
    · obtain old | new := List.mem_append.1 member
      · exact done.report t old
      · rw [List.mem_singleton.1 new, here]
        simpa [Tried.Written] using report
    · obtain old | new := List.mem_append.1 member
      · exact done.kept streamed.grows old opened
      · rw [List.mem_singleton.1 new, here] at opened
        cases opened
        rw [List.mem_singleton.1 new]
        exact ⟨streamed.opens, streamed.takes⟩
    · have elsewhere : loc ≠ place := by
        rintro rfl
        exact apart _ (List.mem_append_right _ (List.mem_singleton_self _)) here
      exact done.left_alone (streamed.frame loc elsewhere takes) takes fun t member =>
        apart t (List.mem_append_left _ member)
    · obtain ⟨-, rfl, -⟩ | ⟨earlier, rfl, before⟩ := split_concat split
      · rw [here] at opened
        cases opened
        exact streamed.holds
      · have elsewhere : loc ≠ place := by
          rintro rfl
          exact last _ (List.mem_append_right _ (List.mem_singleton_self _)) here
        have takes := (done.placed t (by simp [before]) loc opened).2
        exact done.still (streamed.frame loc elsewhere (streamed.grows.takes takes)) before opened
          fun other member => last other (List.mem_append_left _ member)

theorem foldlM_done {faults : Nat → Fault} {edits : List ProposedEdit} {outcome outcome' : ApplyOutcome}
    {disk disk' : DiskState} {earlier : List Tried} (before : Done root fs₀ earlier disk.fs)
    (ran : edits.foldlM (applyNext root faults) outcome disk = .ok outcome' disk') :
    Done root fs₀ (earlier ++ tried root faults disk edits) disk'.fs ∧
      (tried root faults disk edits).map Tried.edit = edits ∧
      outcome' = ((tried root faults disk edits).map fun t => t.applied.report).foldl
          ApplyOutcome.add outcome := by
  induction edits generalizing outcome disk earlier with
  | nil =>
    cases ran
    exact ⟨by simpa [tried] using before, rfl, rfl⟩
  | cons edit rest ih =>
    rw [foldlM_applyNext_cons] at ran
    simp only [tried]
    cases result : applyEdit root (faults disk.tried) disk.fs edit with
    | error e =>
      rw [result] at ran
      cases ran
    | ok applied =>
      rw [result] at ran
      obtain ⟨done, edits, reports⟩ := ih (before.concat (applyEdit_effect result)) ran
      refine ⟨?_, by simp [edits], reports⟩
      simpa using done

/-- The content of the file at a place, if there is one. -/
def content (fs : FileSystem) (loc : Loc) : Option Bytes :=
  match fs.kind loc with
  | some (.leaf (.file bytes _)) => some bytes
  | _ => none

theorem content_eq_some {loc : Loc} {bytes : Bytes} :
    content fs loc = some bytes ↔ ∃ readable, fs.kind loc = some (.leaf (.file bytes readable)) := by
  unfold content
  cases found : fs.kind loc with
  | none => simp
  | some what =>
    cases what with
    | dir => simp
    | leaf what => cases what <;> simp

/-- The report and the disk agree: the file of an edit that was not written has its content, unless
another edit wrote it, and the file of an edit that was written and is the last to it has the edit's. -/
structure Intact (root : Path) (before : FileSystem) (entries : List Tried) (after : FileSystem) :
    Prop where
  failed : ∀ t ∈ entries, ¬ t.Written → ∀ loc bytes, target root after t.edit = .ok loc →
    content before loc = some bytes →
    (∀ other ∈ entries, other.Written → target root after other.edit ≠ .ok loc) →
      content after loc = some bytes
  written : ∀ pre t post loc, entries = pre ++ t :: post → t.Written → target root after t.edit = .ok loc →
    (∀ other ∈ post, target root after other.edit ≠ .ok loc) → content after loc = some t.edit.newContent

/-- No stream loses what it should not. -/
structure Spared (root : Path) (before : FileSystem) (entries : List Tried) (after : FileSystem) :
    Prop where
  cut : ∀ pre t post loc bytes, entries = pre ++ t :: post → t.stream root = some loc → Noticed t.fault →
    (∀ other ∈ post, other.stream root ≠ some loc) → content before loc = some bytes →
    (∀ other ∈ entries, other.stream root = some loc → Noticed other.fault) → stored t.fault t.edit = bytes
  whole : ∀ pre t post loc, entries = pre ++ t :: post → t.stream root = some loc → ¬ Noticed t.fault →
    (∀ other ∈ post, target root after other.edit ≠ .ok loc) →
    t.before.kind loc ≠ some (.leaf .special) ∧ stored t.fault t.edit = t.edit.newContent

theorem exists_last {entries : List Tried} {loc : Loc}
    (some : ∃ t ∈ entries, t.stream root = Option.some loc) :
    ∃ pre t post, entries = pre ++ t :: post ∧ t.stream root = Option.some loc ∧
      ∀ other ∈ post, other.stream root ≠ Option.some loc := by
  induction entries with
  | nil => simp at some
  | cons first rest ih =>
    by_cases later : ∃ t ∈ rest, t.stream root = Option.some loc
    · obtain ⟨pre, t, post, split, opened, last⟩ := ih later
      exact ⟨first :: pre, t, post, by rw [split, List.cons_append], opened, last⟩
    · obtain ⟨t, member, opened⟩ := some
      obtain rfl | there := List.mem_cons.1 member
      · exact ⟨[], t, rest, rfl, opened, fun other member same => later ⟨other, member, same⟩⟩
      · exact absurd ⟨t, there, opened⟩ later

theorem Done.stream_eq {entries : List Tried} (done : Done root fs₀ entries fs) {t : Tried}
    (member : t ∈ entries) {loc place : Loc}
    (opened : t.stream root = some place) (there : target root fs t.edit = .ok loc) :
    t.stream root = some loc := by
  rw [(done.placed t member place opened).1] at there
  rw [opened, Except.ok.inj there]

theorem Done.written_stream {entries : List Tried} (done : Done root fs₀ entries fs) {t : Tried}
    (member : t ∈ entries) (written : t.Written) {loc : Loc} (there : target root fs t.edit = .ok loc) :
    t.stream root = some loc ∧ ¬ Noticed t.fault := by
  obtain ⟨⟨place, opened⟩, unnoticed⟩ := (done.report t member).1 written
  exact ⟨done.stream_eq member opened there, unnoticed⟩

theorem Done.content_latest {entries : List Tried} (done : Done root fs₀ entries fs) {pre post : List Tried}
    {t : Tried} {loc : Loc} (split : entries = pre ++ t :: post) (opened : t.stream root = some loc)
    (last : ∀ other ∈ post, other.stream root ≠ some loc) :
    content fs loc = if t.before.kind loc = some (.leaf .special) then none else some
        (stored t.fault t.edit) := by
  obtain ⟨here, device⟩ | ⟨elsewhere, readable, file⟩ := done.latest pre t post loc split opened last
  · rw [if_pos here]
    simp only [content, device]
  · rw [if_neg elsewhere]
    exact content_eq_some.2 ⟨readable, file⟩

theorem Done.spared_of_intact {entries : List Tried} (done : Done root fs₀ entries fs)
    (intact : Intact root fs₀ entries fs) : Spared root fs₀ entries fs := by
  constructor
  · intro pre t post loc bytes split opened noticed last before alone
    have member : t ∈ entries := by simp [split]
    have unwritten : ¬ t.Written := fun written => ((done.report t member).1 written).2 noticed
    have kept : content fs loc = some bytes := by
      apply intact.failed t member unwritten loc bytes (done.placed t member loc opened).1 before
      intro other among written there
      obtain ⟨same, unnoticed⟩ := done.written_stream among written there
      exact unnoticed (alone other among same)
    rw [done.content_latest split opened last] at kept
    split_ifs at kept
    exact Option.some.inj kept
  · intro pre t post loc split opened unnoticed final
    have member : t ∈ entries := by simp [split]
    have written : t.Written := (done.report t member).2 ⟨⟨loc, opened⟩, unnoticed⟩
    have held := intact.written pre t post loc split written (done.placed t member loc opened).1 final
    have last : ∀ other ∈ post, other.stream root ≠ some loc := by
      intro other later same
      exact final other later (done.placed other (by simp [split, later]) loc same).1
    rw [done.content_latest split opened last] at held
    split_ifs at held with device
    exact ⟨device, Option.some.inj held⟩

theorem Done.intact_of_spared {entries : List Tried} (done : Done root fs₀ entries fs)
    (spared : Spared root fs₀ entries fs) : Intact root fs₀ entries fs := by
  constructor
  · intro t member unwritten loc bytes there before alone
    obtain ⟨readable, file⟩ := content_eq_some.1 before
    have takes : fs.Takes loc := done.grows.takes (.inr ⟨bytes, readable, file⟩)
    by_cases some : ∃ t ∈ entries, t.stream root = Option.some loc
    · obtain ⟨pre, t', post, split, opened, last⟩ := exists_last some
      have noticed : ∀ other ∈ entries, other.stream root = Option.some loc → Noticed other.fault := by
        intro other among same
        by_contra unnoticed
        have written := (done.report other among).2 ⟨⟨loc, same⟩, unnoticed⟩
        exact alone other among written (done.placed other among loc same).1
      have kept := spared.cut pre t' post loc bytes split opened
        (noticed t' (by simp [split]) opened) last before
        noticed
      obtain ⟨-, device⟩ | ⟨-, now, after⟩ := done.latest pre t' post loc split opened last
      · -- a file never becomes a device
        obtain ⟨found, there, same | ⟨_, _, _, _, -, other⟩⟩ := done.grows.alike loc _ file
        · simp [there, ← same] at device
        · simp [there, other] at device
      · exact content_eq_some.2 ⟨now, by rw [after, kept]⟩
    · have apart : ∀ t ∈ entries, t.stream root ≠ Option.some loc :=
        fun t member same => some ⟨t, member, same⟩
      exact content_eq_some.2 ⟨readable, by rw [done.untouched loc takes apart, file]⟩
  · intro pre t post loc split written there final
    have member : t ∈ entries := by simp [split]
    obtain ⟨opened, unnoticed⟩ := done.written_stream member written there
    obtain ⟨device, whole⟩ := spared.whole pre t post loc split opened unnoticed final
    have last : ∀ other ∈ post, other.stream root ≠ some loc := by
      intro other later same
      exact final other later (done.placed other (by simp [split, later]) loc same).1
    rw [done.content_latest split opened last, if_neg device, whole]

/-- If the batch returns, its reports are true of the disk. -/
def Truthful (root : Path) (faults : Nat → Fault) (edits : List ProposedEdit) (disk : DiskState) : Prop :=
  ∀ outcome disk', apply root faults edits disk = .ok outcome disk' →
    (tried root faults disk edits).map Tried.edit = edits ∧
    outcome = ((tried root faults disk edits).map fun t => t.applied.report).foldl ApplyOutcome.add {} ∧
    Intact root disk.fs (tried root faults disk edits) disk'.fs

theorem truthful_iff (root : Path) (faults : Nat → Fault) (edits : List ProposedEdit) (disk : DiskState) :
    Truthful root faults edits disk ↔ ∀ outcome disk', apply root faults edits disk = .ok outcome disk' →
      Spared root disk.fs (tried root faults disk edits) disk'.fs := by
  constructor
  · intro truthful outcome disk' ran
    have done := (foldlM_done (.nil root disk.fs) ran).1
    exact done.spared_of_intact (truthful outcome disk' ran).2.2
  · intro spared outcome disk' ran
    obtain ⟨done, edits, reports⟩ := foldlM_done (.nil root disk.fs) ran
    exact ⟨edits, reports, done.intact_of_spared (spared outcome disk' ran)⟩

def replaced : ProposedEdit := ⟨ascii "a.cpp", ascii "x", []⟩

/-- On a full disk. If the stream learns of it when it is closed, the edit is reported as written; if it
learns before, as failed. The file is empty both times. -/
theorem full_disk_empties :
    ¬ Truthful (ofBytes (ascii "/r")) (fun _ => .writing 0 false) [replaced] { fs := Samples.cached } ∧
    ¬ Truthful (ofBytes (ascii "/r")) (fun _ => .writing 0 true) [replaced] { fs := Samples.cached } := by
  constructor
  · intro truthful
    have ran : ∃ outcome disk', apply (ofBytes (ascii "/r")) (fun _ => .writing 0 false) [replaced]
          { fs := Samples.cached } = .ok outcome disk' ∧
        target (ofBytes (ascii "/r")) disk'.fs replaced = .ok [Samples.aCpp, Samples.r] ∧
        content disk'.fs [Samples.aCpp, Samples.r] = some [] := ⟨_, _, rfl, rfl, rfl⟩
    have alone : ∃ t, tried (ofBytes (ascii "/r")) (fun _ => .writing 0 false) { fs := Samples.cached }
        [replaced] = [t] ∧ t.edit = replaced ∧ t.Written := ⟨_, rfl, rfl, _, rfl⟩
    obtain ⟨outcome, disk', returned, there, empty⟩ := ran
    obtain ⟨t, single, same, written⟩ := alone
    obtain ⟨-, -, intact⟩ := truthful outcome disk' returned
    rw [single] at intact
    have held := intact.written [] t [] [Samples.aCpp, Samples.r] rfl written
      (by rw [same]; exact there) (by simp)
    rw [empty, same] at held
    cases held
  · intro truthful
    have ran : ∃ outcome disk', apply (ofBytes (ascii "/r")) (fun _ => .writing 0 true) [replaced]
          { fs := Samples.cached } = .ok outcome disk' ∧
        target (ofBytes (ascii "/r")) disk'.fs replaced = .ok [Samples.aCpp, Samples.r] ∧
        content disk'.fs [Samples.aCpp, Samples.r] = some [] := ⟨_, _, rfl, rfl, rfl⟩
    have alone : ∃ t, tried (ofBytes (ascii "/r")) (fun _ => .writing 0 true) { fs := Samples.cached }
        [replaced] = [t] ∧ t.edit = replaced ∧ ¬ t.Written := by
      refine ⟨_, rfl, rfl, ?_⟩
      rintro ⟨path, report⟩
      cases report
    obtain ⟨outcome, disk', returned, there, empty⟩ := ran
    obtain ⟨t, single, same, unwritten⟩ := alone
    obtain ⟨-, -, intact⟩ := truthful outcome disk' returned
    rw [single] at intact
    have kept := intact.failed t (by simp) unwritten [Samples.aCpp, Samples.r] (ascii "cache")
      (by rw [same]; exact there) (by rfl)
      (fun other member written => absurd written (List.mem_singleton.1 member ▸ unwritten))
    rw [empty] at kept
    cases kept

end CppCoder.FailedWrites
