import CppCoder.Judge
import CppCoder.ReplyReading
import CppCoder.EditEngine
import CppCoder.ResearchEngine

/-! What a reply that cannot be read leaves behind: of a worker's or an editor's reply everything that
came before the exception but the outcome, of a judge's reply nothing. -/

namespace CppCoder.UnusableReplies
open Support Utf8 JsonValue Program CppCoder.Types Session JsonUtil Reply ReplyReading

/-- Reading the reply ends in the exception handler. -/
def WorkerHandled (parser : Parser) (counter : Nat) (raw area : Bytes) : Prop :=
  extractJsonObject raw ≠ [] ∧ ∃ e p, Worker.readFinding parser (extractJsonObject raw)
    ⟨{ areaInvestigated := area }, counter⟩ = .error e p

/-- Before the exception there was nothing to read: the text is no JSON, its outcome or its summary is no
text, or it has no summary and no usable direction before the first one that throws. -/
def WorkerReadsNothing (parser : Parser) (raw : Bytes) : Prop :=
  ∀ parsed outcome summary, parser.parse (extractJsonObject raw) = some parsed →
    textAt "outcome" parsed = some outcome → textAt "summary" parsed = some summary →
    summary = [] ∧ (readPart leadFields (listAt "directions" parsed)).filterMap usableLead = []

/-- The finding is the one of a reply without JSON, and the events about it list no direction. -/
structure LeavesNothing (parser : Parser) (counter : Nat) (raw area : Bytes) : Prop where
  finding : (Worker.parseWorkerResponse parser counter raw area).1 =
    (Worker.parseWorkerResponse parser counter [] area).1
  found : ∀ task duration tokens, listAt "directions" (ResearchEngine.workerResult task
    { (Worker.parseWorkerResponse parser counter raw area).1 with
      duration, promptTokensApprox := tokens }) = []
  judged : ∀ task before duration tokens, listAt "kept_directions" (ResearchEngine.judgeResult task before
    { (Worker.parseWorkerResponse parser counter raw area).1 with
      duration, promptTokensApprox := tokens }) = []

theorem extractJsonObject_nil : extractJsonObject [] = [] := by decide

theorem stated_of_read {parsed : Json} {default text summary : Bytes}
    (read : parsed.valueStr "outcome" default = .ok text) (shown : parsed.valueStr "summary" [] = .ok summary) :
    ∃ outcome, textAt "outcome" parsed = some outcome ∧ textAt "summary" parsed = some summary := by
  have said := textAt_of_read shown
  rcases textAt_of_ok read with told | ⟨told, -⟩
  · exact ⟨text, told, said⟩
  · exact ⟨[], told, said⟩

/-- Two cases of a reply: either it states an outcome and a summary, or nothing of it was read. -/
theorem blank_iff {parser : Parser} {text : Bytes} {blank : Prop} {nothing : Json → Bytes → Prop}
    (stated : ∀ parsed outcome summary, parser.parse text = some parsed →
      textAt "outcome" parsed = some outcome → textAt "summary" parsed = some summary →
      (blank ↔ nothing parsed summary))
    (unread : (∀ parsed outcome summary, parser.parse text = some parsed →
      textAt "outcome" parsed = some outcome → textAt "summary" parsed ≠ some summary) → blank) :
    blank ↔ ∀ parsed outcome summary, parser.parse text = some parsed →
      textAt "outcome" parsed = some outcome → textAt "summary" parsed = some summary →
      nothing parsed summary := by
  constructor
  · intro holds parsed outcome summary parses told said
    exact (stated parsed outcome summary parses told said).1 holds
  · intro all
    by_contra other
    apply other
    apply unread
    intro parsed outcome summary parses told said
    exact other ((stated parsed outcome summary parses told said).2
      (all parsed outcome summary parses told said))

theorem worker_unread {parser : Parser} {text : Bytes}
    (unread : ∀ parsed outcome summary, parser.parse text = some parsed →
      textAt "outcome" parsed = some outcome → textAt "summary" parsed ≠ some summary)
    (p : Parsing Finding) :
    Runs (Worker.readFinding parser text) p (fun _ _ => False)
      fun _ p' => p'.finding = { p.finding with outcome := p'.finding.outcome } := by
  unfold Worker.readFinding
  cases parses : parser.parse text with
  | none => exact Runs.throw rfl
  | some parsed =>
    refine Runs.bind (Runs.orThrow (fun outcomeStr read => ?_) fun _ _ => rfl)
    refine Runs.bind (Runs.modify (Runs.bind (Runs.orThrow (fun summary shown => ?_) fun _ _ => rfl)))
    obtain ⟨outcome, told, said⟩ := stated_of_read read shown
    exact absurd said (unread parsed outcome summary parses told)

theorem parseWorkerResponse_handled {parser : Parser} {counter : Nat} {raw area : Bytes} {e : JsonError}
    {p : Parsing Finding} (span : extractJsonObject raw ≠ [])
    (thrown : Worker.readFinding parser (extractJsonObject raw) ⟨{ areaInvestigated := area }, counter⟩ =
      .error e p) :
    (Worker.parseWorkerResponse parser counter raw area).1 =
      { p.finding with outcome := .noInformation } := by
  unfold Worker.parseWorkerResponse
  dsimp only
  rw [if_neg span, thrown]

theorem parseWorkerResponse_nil (parser : Parser) (counter : Nat) (area : Bytes) :
    (Worker.parseWorkerResponse parser counter [] area).1 = { areaInvestigated := area } := by
  unfold Worker.parseWorkerResponse
  dsimp only
  rw [if_pos extractJsonObject_nil]

theorem workerHandled_blank {parser : Parser} {counter : Nat} {raw area : Bytes}
    (handled : WorkerHandled parser counter raw area) :
    (Worker.parseWorkerResponse parser counter raw area).1 = { areaInvestigated := area } ↔
      WorkerReadsNothing parser raw := by
  obtain ⟨span, e, p, thrown⟩ := handled
  rw [parseWorkerResponse_handled span thrown]
  refine blank_iff (fun parsed outcome summary parses told said => ?_) fun unread => ?_
  · have after := ((worker_reads parses told said _).error thrown).2
    have directed : p.finding.suggestedDirections.map leadOf =
        (readPart leadFields (listAt "directions" parsed)).filterMap usableLead := by
      simpa using after.directions
    have shown : p.finding.summary = summary := by rw [after.rest]
    constructor
    · intro blank
      have noDirection : p.finding.suggestedDirections = [] := congrArg Finding.suggestedDirections blank
      rw [noDirection] at directed
      exact ⟨shown.symm.trans (congrArg Finding.summary blank), directed.symm⟩
    · intro nothing
      rw [nothing.2] at directed
      rw [after.rest, List.map_eq_nil_iff.1 directed, nothing.1]
  · rw [(worker_unread unread _).error thrown]

theorem leavesNothing_iff {parser : Parser} {counter : Nat} {raw area : Bytes} :
    LeavesNothing parser counter raw area ↔
      (Worker.parseWorkerResponse parser counter raw area).1 = { areaInvestigated := area } := by
  constructor
  · intro nothing
    exact nothing.finding.trans (parseWorkerResponse_nil parser counter area)
  · intro blank
    refine ⟨blank.trans (parseWorkerResponse_nil parser counter area).symm, ?_, ?_⟩
    · intro task duration tokens
      rw [blank]
      rfl
    · intro task before duration tokens
      rw [blank]
      rfl

/-! ### The editor -/

def EditHandled (parser : Parser) (counter : Nat) (raw area : Bytes) : Prop :=
  extractJsonObject raw ≠ [] ∧ ∃ e p, Editor.readFinding parser (extractJsonObject raw)
    ⟨{ areaInvestigated := area }, counter⟩ = .error e p

/-- Before the exception there was nothing to read. -/
def EditorReadsNothing (parser : Parser) (raw : Bytes) : Prop :=
  ∀ parsed outcome summary, parser.parse (extractJsonObject raw) = some parsed →
    textAt "outcome" parsed = some outcome → textAt "summary" parsed = some summary →
    summary = [] ∧ (readPart editFields (listAt "edits" parsed)).filterMap usableEdit = [] ∧
      (reachedPart (listAt "edits" parsed) (listAt "directions" parsed)).filterMap usableLead = []

/-- The finding is the one of a reply without JSON, and the event about it lists no edit and no
direction. -/
structure LeavesNoEdits (parser : Parser) (counter : Nat) (raw area : Bytes) : Prop where
  finding : (Editor.parseEditResponse parser counter raw area).1 =
    (Editor.parseEditResponse parser counter [] area).1
  edits : ∀ task duration tokens, listAt "edits" (EditEngine.editResult task
    { (Editor.parseEditResponse parser counter raw area).1 with
      duration, promptTokensApprox := tokens }) = []
  directions : ∀ task duration tokens, listAt "directions" (EditEngine.editResult task
    { (Editor.parseEditResponse parser counter raw area).1 with
      duration, promptTokensApprox := tokens }) = []

theorem editor_unread {parser : Parser} {text : Bytes}
    (unread : ∀ parsed outcome summary, parser.parse text = some parsed →
      textAt "outcome" parsed = some outcome → textAt "summary" parsed ≠ some summary)
    (p : Parsing EditFinding) :
    Runs (Editor.readFinding parser text) p (fun _ _ => False)
      fun _ p' => p'.finding = { p.finding with outcome := p'.finding.outcome } := by
  unfold Editor.readFinding
  cases parses : parser.parse text with
  | none => exact Runs.throw rfl
  | some parsed =>
    refine Runs.bind (Runs.orThrow (fun outcomeStr read => ?_) fun _ _ => rfl)
    refine Runs.bind (Runs.modify (Runs.bind (Runs.orThrow (fun summary shown => ?_) fun _ _ => rfl)))
    obtain ⟨outcome, told, said⟩ := stated_of_read read shown
    exact absurd said (unread parsed outcome summary parses told)

theorem parseEditResponse_handled {parser : Parser} {counter : Nat} {raw area : Bytes} {e : JsonError}
    {p : Parsing EditFinding} (span : extractJsonObject raw ≠ [])
    (thrown : Editor.readFinding parser (extractJsonObject raw) ⟨{ areaInvestigated := area }, counter⟩ =
      .error e p) :
    (Editor.parseEditResponse parser counter raw area).1 = { p.finding with outcome := .noChangeNeeded } := by
  unfold Editor.parseEditResponse
  dsimp only
  rw [if_neg span, thrown]

theorem parseEditResponse_nil (parser : Parser) (counter : Nat) (area : Bytes) :
    (Editor.parseEditResponse parser counter [] area).1 = { areaInvestigated := area } := by
  unfold Editor.parseEditResponse
  dsimp only
  rw [if_pos extractJsonObject_nil]

theorem editHandled_blank {parser : Parser} {counter : Nat} {raw area : Bytes}
    (handled : EditHandled parser counter raw area) :
    (Editor.parseEditResponse parser counter raw area).1 = { areaInvestigated := area } ↔
      EditorReadsNothing parser raw := by
  obtain ⟨span, e, p, thrown⟩ := handled
  rw [parseEditResponse_handled span thrown]
  refine blank_iff (fun parsed outcome summary parses told said => ?_) fun unread => ?_
  · have after := ((editor_reads parses told said _).error thrown).2
    have proposed : p.finding.edits = (readPart editFields (listAt "edits" parsed)).filterMap usableEdit := by
      rw [after.rest]
      rfl
    have directed : p.finding.suggestedDirections.map leadOf =
        (reachedPart (listAt "edits" parsed) (listAt "directions" parsed)).filterMap usableLead := by
      simpa using after.directions
    have shown : p.finding.summary = summary := by rw [after.rest]
    constructor
    · intro blank
      have noDirection : p.finding.suggestedDirections = [] :=
        congrArg EditFinding.suggestedDirections blank
      rw [noDirection] at directed
      refine ⟨shown.symm.trans (congrArg EditFinding.summary blank), ?_, directed.symm⟩
      exact proposed.symm.trans (congrArg EditFinding.edits blank)
    · intro nothing
      obtain ⟨noSummary, noEdit, noLead⟩ := nothing
      rw [noLead] at directed
      rw [after.rest, List.map_eq_nil_iff.1 directed, noSummary, noEdit]
      rfl
  · rw [(editor_unread unread _).error thrown]

theorem leavesNoEdits_iff {parser : Parser} {counter : Nat} {raw area : Bytes} :
    LeavesNoEdits parser counter raw area ↔
      (Editor.parseEditResponse parser counter raw area).1 = { areaInvestigated := area } := by
  constructor
  · intro nothing
    exact nothing.finding.trans (parseEditResponse_nil parser counter area)
  · intro blank
    refine ⟨blank.trans (parseEditResponse_nil parser counter area).symm, ?_, ?_⟩
    · intro task duration tokens
      rw [blank]
      rfl
    · intro task duration tokens
      rw [blank]
      rfl

/-- A reply that ends in the handler leaves a blank finding exactly when nothing could be read before
the exception. -/
theorem handler_leaves (parser : Parser) (counter : Nat) (raw area : Bytes) :
    (WorkerHandled parser counter raw area →
      (LeavesNothing parser counter raw area ↔ WorkerReadsNothing parser raw)) ∧
    (EditHandled parser counter raw area →
      (LeavesNoEdits parser counter raw area ↔ EditorReadsNothing parser raw)) :=
  ⟨fun handled => leavesNothing_iff.trans (workerHandled_blank handled),
    fun handled => leavesNoEdits_iff.trans (editHandled_blank handled)⟩

def halfReply : Bytes :=
  ascii "\x7b\"outcome\":\"success\",\"summary\":\"done\",\"edits\":[\x7b\"path\":\"a.cpp\"\x7d,null]," ++
  ascii "\"directions\":[\x7b\"target_area\":\"lib\",\"research_goal\":\"look\"\x7d,null]\x7d"

def halfParsed : Json :=
  .obj [(ascii "outcome", .str (ascii "success")), (ascii "summary", .str (ascii "done")),
    (ascii "edits", .arr [.obj [(ascii "path", .str (ascii "a.cpp"))], .null]),
    (ascii "directions", .arr [.obj [(ascii "target_area", .str (ascii "lib")),
      (ascii "research_goal", .str (ascii "look"))], .null])]

def halfParser : Parser := .table [(halfReply, halfParsed)] (by decide +kernel)

def threw {σ : Type} : EStateM.Result JsonError σ Unit → Bool
  | .ok _ _ => false
  | .error _ _ => true

theorem threw_iff {σ : Type} (result : EStateM.Result JsonError σ Unit) :
    threw result = true ↔ ∃ e p, result = .error e p := by
  cases result <;> simp [threw]

theorem half_handled : WorkerHandled halfParser 0 halfReply (ascii "src") ∧
    EditHandled halfParser 0 halfReply (ascii "src") :=
  ⟨⟨by decide +kernel, (threw_iff _).1 (by decide +kernel)⟩,
    ⟨by decide +kernel, (threw_iff _).1 (by decide +kernel)⟩⟩

theorem handler_leaves_half :
    (LeavesNothing halfParser 0 halfReply (ascii "src") ↔ WorkerReadsNothing halfParser halfReply) ∧
      (LeavesNoEdits halfParser 0 halfReply (ascii "src") ↔ EditorReadsNothing halfParser halfReply) :=
  ⟨(handler_leaves halfParser 0 halfReply (ascii "src")).1 half_handled.1,
    (handler_leaves halfParser 0 halfReply (ascii "src")).2 half_handled.2⟩

/-- The summary, the first edit and the first direction stay in the findings. -/
theorem handler_keeps : (WorkerHandled halfParser 0 halfReply (ascii "src") ∧
      EditHandled halfParser 0 halfReply (ascii "src")) ∧
    ¬ LeavesNothing halfParser 0 halfReply (ascii "src") ∧
    ¬ LeavesNoEdits halfParser 0 halfReply (ascii "src") := by
  refine ⟨half_handled, fun nothing => ?_, fun nothing => ?_⟩
  · have kept := congrArg (fun f => f.suggestedDirections.length) nothing.finding
    revert kept
    decide +kernel
  · have kept := congrArg (fun f => f.edits.length) nothing.finding
    revert kept
    decide +kernel

section Judge
open Judge

/-- The `try` block either throws before it changes anything, or replaces both the summary and the
directions. -/
theorem prune_whole (parser : Parser) (jsonStr : Bytes) (finding : Finding) :
    Runs (prune parser jsonStr) finding
      (fun _ f => ∃ parsed relevant indices, parser.parse jsonStr = some parsed ∧
        parsed.valueBool "summary_relevant" true = .ok relevant ∧
        filteredSummary parsed relevant finding.summary = .ok f.summary ∧
        parsed.valueJson "keep_direction_indices" (.arr []) = .ok indices ∧
        f.suggestedDirections = indices.items.filterMap (keptBy finding.suggestedDirections))
      fun _ f => f = finding := by
  unfold prune
  cases parser.parse jsonStr with
  | none => exact Runs.throw rfl
  | some parsed =>
    refine Runs.bind (Runs.orThrow (fun relevant verdict => ?_) fun _ _ => rfl)
    refine Runs.bind (Runs.get (Runs.bind (Runs.orThrow (fun summary read => ?_) fun _ _ => rfl)))
    refine Runs.bind (Runs.modify (Runs.bind (Runs.orThrow (fun indices listed => ?_)
      fun e thrown => ?_)))
    · refine Runs.bind (Runs.modify (Runs.modify ?_))
      refine ⟨parsed, relevant, indices, rfl, verdict, ?_, listed, ?_⟩
      · split_ifs <;> exact read
      · split_ifs <;> rfl
    · -- the value is an object, or the first lookup would have thrown
      cases parsed with
      | obj fields => exact absurd thrown (valueJson_obj fields)
      | _ => cases verdict

/-- A judge's reply that cannot be used changes nothing, and one that can settles both the summary and
the directions. -/
theorem applyJudgeResponse_whole (parser : Parser) (raw : Bytes) (finding : Finding) :
    ((extractJsonObject raw = [] ∨ parser.parse (extractJsonObject raw) = none ∨
        ∃ e f, prune parser (extractJsonObject raw) finding = .error e f) →
      applyJudgeResponse parser raw finding = finding) ∧
    ∀ f, extractJsonObject raw ≠ [] → prune parser (extractJsonObject raw) finding = .ok () f →
      applyJudgeResponse parser raw finding = f ∧
      ∃ parsed relevant indices, parser.parse (extractJsonObject raw) = some parsed ∧
        parsed.valueBool "summary_relevant" true = .ok relevant ∧
        filteredSummary parsed relevant finding.summary = .ok f.summary ∧
        parsed.valueJson "keep_direction_indices" (.arr []) = .ok indices ∧
        f.suggestedDirections = indices.items.filterMap (keptBy finding.suggestedDirections) := by
  have run := prune_whole parser (extractJsonObject raw) finding
  constructor
  · intro unusable
    unfold applyJudgeResponse
    dsimp only
    split_ifs with span
    · rfl
    · rcases unusable with none | unparsed | ⟨e, f, thrown⟩
      · exact absurd none span
      · unfold prune
        rw [unparsed]
        rfl
      · rw [thrown]
        exact run.error thrown
  · intro f span done
    refine ⟨?_, run.ok done⟩
    unfold applyJudgeResponse
    dsimp only
    rw [if_neg span, done]
    rfl

end Judge

end CppCoder.UnusableReplies
