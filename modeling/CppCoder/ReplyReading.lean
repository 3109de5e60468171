import CppCoder.Editor
import CppCoder.Worker
import Mathlib.Data.List.TakeWhile

/-! What ends up in a finding when an element of one of the reply's lists cannot be read. -/

namespace CppCoder.ReplyReading
open Support Utf8 JsonValue Program CppCoder.Types JsonUtil Reply

/-! ### What a reply states -/

/-- The text an object has under a key, empty if it has no such member. There is none if the value is no
object or the member is no string. -/
def textAt (key : String) : Json → Option Bytes
  | .obj fields =>
      match fields.lookup (ascii key) with
      | none => some []
      | some (.str text) => some text
      | some _ => none
  | _ => none

/-- The elements an object has under a key. -/
def listAt (key : String) : Json → List Json
  | .obj fields => ((fields.lookup (ascii key)).getD (.arr [])).items
  | _ => []

/-- What an element of `directions` says. -/
structure Lead where
  targetArea : Bytes
  researchGoal : Bytes
  successCriteria : Bytes
  deriving DecidableEq

def leadOf (t : Task) : Lead := ⟨t.targetArea, t.researchGoal, t.successCriteria⟩

def leadFields (dir : Json) : Option Lead := do
  let targetArea ← textAt "target_area" dir
  let researchGoal ← textAt "research_goal" dir
  let successCriteria ← textAt "success_criteria" dir
  return ⟨targetArea, researchGoal, successCriteria⟩

def usableLead (dir : Json) : Option Lead :=
  (leadFields dir).filter fun lead => lead.targetArea ≠ [] ∧ lead.researchGoal ≠ []

def editFields (e : Json) : Option ProposedEdit := do
  let path ← textAt "path" e
  let newContent ← textAt "new_content" e
  let description ← textAt "description" e
  return ⟨path, Editor.stripScannerHeaderMarker newContent, description⟩

def usableEdit (e : Json) : Option ProposedEdit := (editFields e).filter fun edit => edit.path ≠ []

def readPart {α : Type} (fields : Json → Option α) (items : List Json) : List Json :=
  items.takeWhile fun item => (fields item).isSome

def unreadPart {α : Type} (fields : Json → Option α) (items : List Json) : List Json :=
  items.dropWhile fun item => (fields item).isSome

def AllRead {α : Type} (fields : Json → Option α) (items : List Json) : Prop :=
  ∀ item ∈ items, (fields item).isSome

section Parts
variable {α : Type} {fields : Json → Option α}

theorem readPart_cons (item : Json) (rest : List Json) :
    readPart fields (item :: rest) =
      if (fields item).isSome then item :: readPart fields rest else [] := by
  unfold readPart
  rw [List.takeWhile_cons]

theorem readPart_of_allRead {items : List Json} (all : AllRead fields items) :
    readPart fields items = items := List.takeWhile_eq_self_iff.2 all

theorem readPart_append (items : List Json) : readPart fields items ++ unreadPart fields items = items :=
  List.takeWhile_append_dropWhile

end Parts

theorem textAt_of_error {parsed : Json} {key : String} {default : Bytes} {e : JsonError}
    (thrown : parsed.valueStr key default = .error e) : textAt key parsed = none := by
  unfold Json.valueStr at thrown
  cases parsed with
  | obj fields =>
    simp only [Json.member] at thrown
    cases found : fields.lookup (ascii key) with
    | none =>
      rw [found] at thrown
      cases thrown
    | some member =>
      rw [found] at thrown
      cases member with
      | str text => cases thrown
      | _ => simp only [textAt, found]
  | _ => rfl

theorem textAt_of_ok {parsed : Json} {key : String} {default text : Bytes}
    (read : parsed.valueStr key default = .ok text) :
    textAt key parsed = some text ∨ textAt key parsed = some [] ∧ text = default := by
  unfold Json.valueStr at read
  cases parsed with
  | obj fields =>
    simp only [Json.member] at read
    cases found : fields.lookup (ascii key) with
    | none =>
      rw [found] at read
      cases read
      exact .inr ⟨by simp only [textAt, found], rfl⟩
    | some member =>
      rw [found] at read
      cases member with
      | str text =>
        cases read
        exact .inl (by simp only [textAt, found])
      | _ => cases read
  | _ => cases read

theorem textAt_of_read {parsed : Json} {key : String} {text : Bytes}
    (read : parsed.valueStr key [] = .ok text) : textAt key parsed = some text := by
  rcases textAt_of_ok read with stated | ⟨absent, rfl⟩
  · exact stated
  · exact absent

theorem listAt_of_valueJson {parsed found : Json} {key : String}
    (read : parsed.valueJson key (.arr []) = .ok found) : found.items = listAt key parsed := by
  unfold Json.valueJson at read
  cases parsed with
  | obj fields =>
    simp only [Json.member] at read
    cases there : fields.lookup (ascii key) <;>
      (rw [there] at read; cases read; simp only [listAt, there, Option.getD_none, Option.getD_some])
  | _ => cases read

theorem valueJson_obj (fields : List (Bytes × Json)) {key : String} {default : Json} {e : JsonError} :
    (Json.obj fields).valueJson key default ≠ .error e := by
  intro thrown
  simp only [Json.valueJson, Json.member] at thrown
  cases there : fields.lookup (ascii key) <;> (rw [there] at thrown; cases thrown)

theorem valueJson_ne_error {parsed default : Json} {key other : String} {text : Bytes} {e : JsonError}
    (stated : textAt other parsed = some text) : parsed.valueJson key default ≠ .error e := by
  cases parsed with
  | obj fields => exact valueJson_obj fields
  | _ => cases stated

section Loop
variable {φ α β : Type} {fields : Json → Option β} {usable : Json → Option α}
  {grows : φ → List α → φ → Prop} {body : Json → EStateM JsonError (Parsing φ) Unit}

theorem runs_elements (refl : ∀ f, grows f [] f)
    (trans : ∀ f g h first second, grows f first g → grows g second h → grows f (first ++ second) h)
    (step : ∀ item p, Runs (body item) p
      (fun _ (p' : Parsing φ) => (fields item).isSome ∧
        grows p.finding (usable item).toList p'.finding)
      fun _ (p' : Parsing φ) => (fields item).isSome = false ∧ p'.finding = p.finding)
    (items : List Json) (p : Parsing φ) :
    Runs (items.forM body) p
      (fun _ (p' : Parsing φ) => AllRead fields items ∧
        grows p.finding ((readPart fields items).filterMap usable) p'.finding)
      fun _ (p' : Parsing φ) => ¬ AllRead fields items ∧
        grows p.finding ((readPart fields items).filterMap usable) p'.finding := by
  induction items generalizing p with
  | nil => exact Runs.pure ⟨fun _ none => absurd none List.not_mem_nil, refl _⟩
  | cons item rest ih =>
    change Runs (body item >>= fun _ => rest.forM body) p _ _
    refine Runs.bind ((step item p).imp (fun _ q first => ?_) fun _ q thrown => ?_)
    · have both : ∀ p' : Parsing φ, grows q.finding ((readPart fields rest).filterMap usable) p'.finding →
          grows p.finding ((readPart fields (item :: rest)).filterMap usable) p'.finding := by
        intro p' later
        have joined := trans _ _ _ _ _ first.2 later
        have head : (readPart fields (item :: rest)).filterMap usable =
            (usable item).toList ++ (readPart fields rest).filterMap usable := by
          rw [readPart_cons, if_pos first.1]
          cases given : usable item <;> simp [given]
        rwa [head]
      apply (ih q).imp
      · intro _ p' later
        exact ⟨List.forall_mem_cons.2 ⟨first.1, later.1⟩, both p' later.2⟩
      · intro _ p' later
        exact ⟨fun all => later.1 (List.forall_mem_cons.1 all).2, both p' later.2⟩
    · have nothing : readPart fields (item :: rest) = [] := by
        rw [readPart_cons, if_neg (by simp [thrown.1])]
      refine ⟨fun all => ?_, ?_⟩
      · have some := all item List.mem_cons_self
        rw [thrown.1] at some
        cases some
      · rw [nothing, thrown.2]
        exact refl _

end Loop

theorem readDirection_reads {φ : Type} (label : String) {add : Task → φ → φ}
    {grows : φ → List Lead → φ → Prop} (refl : ∀ f, grows f [] f)
    (adds : ∀ t f, grows f [leadOf t] (add t f)) (dir : Json) (p : Parsing φ) :
    Runs (readDirection label add dir) p
      (fun _ (p' : Parsing φ) => (leadFields dir).isSome ∧
        grows p.finding (usableLead dir).toList p'.finding)
      fun _ (p' : Parsing φ) => (leadFields dir).isSome = false ∧ p'.finding = p.finding := by
  unfold readDirection
  refine Runs.bind (Runs.modifyGet (Runs.bind (Runs.orThrow (fun targetArea read => ?_)
    fun e thrown => ?_)))
  · have area := textAt_of_read read
    refine Runs.bind (Runs.orThrow (fun researchGoal read => ?_) fun e thrown => ?_)
    · have goal := textAt_of_read read
      refine Runs.bind (Runs.orThrow (fun successCriteria read => ?_) fun e thrown => ?_)
      · have criteria := textAt_of_read read
        have whole : leadFields dir = some ⟨targetArea, researchGoal, successCriteria⟩ := by
          simp [leadFields, area, goal, criteria]
        dsimp only
        split_ifs with named
        · refine Runs.modify ⟨by rw [whole]; rfl, ?_⟩
          have used : usableLead dir = some ⟨targetArea, researchGoal, successCriteria⟩ := by
            unfold usableLead
            rw [whole, Option.filter_some_pos (by simpa using named)]
          rw [used]
          exact adds ⟨ascii label ++ decimal (p.counter + 1), targetArea, researchGoal, successCriteria,
            0, false, [], []⟩ p.finding
        · refine Runs.pure ⟨by rw [whole]; rfl, ?_⟩
          have unused : usableLead dir = none := by
            unfold usableLead
            rw [whole, Option.filter_some_neg (by simpa using named)]
          rw [unused]
          exact refl _
      · exact ⟨by simp [leadFields, area, goal, textAt_of_error thrown], rfl⟩
    · exact ⟨by simp [leadFields, area, textAt_of_error thrown], rfl⟩
  · exact ⟨by simp [leadFields, textAt_of_error thrown], rfl⟩

def Proposes (finding : EditFinding) (edits : List ProposedEdit) (after : EditFinding) : Prop :=
  after = { finding with edits := finding.edits ++ edits }

theorem Proposes.refl (finding : EditFinding) : Proposes finding [] finding := by
  unfold Proposes
  rw [List.append_nil]

theorem Proposes.trans (a b c : EditFinding) (first second : List ProposedEdit) (one : Proposes a first b)
    (two : Proposes b second c) : Proposes a (first ++ second) c := by
  unfold Proposes at *
  rw [two, one, List.append_assoc]

theorem readEdit_reads (e : Json) (p : Parsing EditFinding) :
    Runs (Editor.readEdit e) p
      (fun _ p' => (editFields e).isSome ∧ Proposes p.finding (usableEdit e).toList p'.finding)
      fun _ p' => (editFields e).isSome = false ∧ p'.finding = p.finding := by
  unfold Editor.readEdit
  refine Runs.bind (Runs.orThrow (fun path read => ?_) fun e thrown => ?_)
  · have named := textAt_of_read read
    refine Runs.bind (Runs.orThrow (fun newContent read => ?_) fun e thrown => ?_)
    · have content := textAt_of_read read
      refine Runs.bind (Runs.orThrow (fun description read => ?_) fun e thrown => ?_)
      · have described := textAt_of_read read
        have whole : editFields e =
            some ⟨path, Editor.stripScannerHeaderMarker newContent, description⟩ := by
          simp [editFields, named, content, described]
        dsimp only
        split_ifs with given
        · refine Runs.modify ⟨by rw [whole]; rfl, ?_⟩
          have used : usableEdit e =
              some ⟨path, Editor.stripScannerHeaderMarker newContent, description⟩ := by
            unfold usableEdit
            rw [whole, Option.filter_some_pos (by simpa using given)]
          rw [used]
          rfl
        · refine Runs.pure ⟨by rw [whole]; rfl, ?_⟩
          have unused : usableEdit e = none := by
            unfold usableEdit
            rw [whole, Option.filter_some_neg (by simpa using given)]
          rw [unused]
          exact .refl _
      · exact ⟨by simp [editFields, named, content, textAt_of_error thrown], rfl⟩
    · exact ⟨by simp [editFields, named, textAt_of_error thrown], rfl⟩
  · exact ⟨by simp [editFields, textAt_of_error thrown], rfl⟩

/-! ### The worker -/

/-- The reply is a value with an outcome and a summary that are texts where they are present. -/
structure States (parser : Parser) (raw : Bytes) (parsed : Json) (outcome summary : Bytes) : Prop where
  span : extractJsonObject raw ≠ []
  parses : parser.parse (extractJsonObject raw) = some parsed
  outcome : textAt "outcome" parsed = some outcome
  summary : textAt "summary" parsed = some summary

structure Directs (finding : Finding) (leads : List Lead) (after : Finding) : Prop where
  rest : after = { finding with suggestedDirections := after.suggestedDirections }
  directions : after.suggestedDirections.map leadOf = finding.suggestedDirections.map leadOf ++ leads

theorem Directs.refl (finding : Finding) : Directs finding [] finding := ⟨rfl, by simp⟩

theorem Directs.trans (a b c : Finding) (first second : List Lead) (one : Directs a first b)
    (two : Directs b second c) : Directs a (first ++ second) c := by
  have rest := congrArg (fun f => { f with suggestedDirections := c.suggestedDirections }) one.rest
  exact ⟨two.rest.trans rest, by rw [two.directions, one.directions, List.append_assoc]⟩

theorem directs_addDirection (t : Task) (finding : Finding) :
    Directs finding [leadOf t] (Worker.addDirection t finding) :=
  ⟨rfl, by simp [Worker.addDirection]⟩

theorem outcomeOf_stated {parsed : Json} {text stated : Bytes}
    (read : parsed.valueStr "outcome" (ascii "no_information") = .ok text)
    (given : textAt "outcome" parsed = some stated) : Worker.outcomeOf text = Worker.outcomeOf stated := by
  rcases textAt_of_ok read with same | ⟨same, rfl⟩
  · rw [same] at given
    cases given
    rfl
  · rw [same] at given
    cases given
    decide

/-- What the `try` block leaves of a reply whose outcome and summary can be read. -/
theorem worker_reads {parser : Parser} {text outcome summary : Bytes} {parsed : Json}
    (parses : parser.parse text = some parsed) (told : textAt "outcome" parsed = some outcome)
    (said : textAt "summary" parsed = some summary) (p : Parsing Finding) :
    let after (p' : Parsing Finding) :=
      Directs { p.finding with outcome := Worker.outcomeOf outcome, summary }
        ((readPart leadFields (listAt "directions" parsed)).filterMap usableLead) p'.finding
    Runs (Worker.readFinding parser text) p
      (fun _ p' => AllRead leadFields (listAt "directions" parsed) ∧ after p')
      fun _ p' => ¬ AllRead leadFields (listAt "directions" parsed) ∧ after p' := by
  intro after
  unfold Worker.readFinding
  rw [parses]
  refine Runs.bind (Runs.orThrow (fun outcomeStr read => ?_) fun e thrown => ?_)
  · refine Runs.bind (Runs.modify (Runs.bind (Runs.orThrow (fun text shown => ?_) fun e thrown => ?_)))
    · have same : text = summary := Option.some.inj ((textAt_of_read shown).symm.trans said)
      subst same
      refine Runs.bind (Runs.modify (Runs.bind (Runs.orThrow (fun directions listed => ?_)
        fun e thrown => ?_)))
      · have loop := runs_elements Directs.refl Directs.trans
          (readDirection_reads "task-" Directs.refl directs_addDirection) directions.items
        rw [listAt_of_valueJson listed] at loop
        rw [listAt_of_valueJson listed]
        have now := loop ⟨{ p.finding with outcome := Worker.outcomeOf outcomeStr, summary := text },
          p.counter⟩
        simp only [after, ← outcomeOf_stated read told]
        exact now
      · exact absurd thrown (valueJson_ne_error told)
    · rw [textAt_of_error thrown] at said
      cases said
  · rw [textAt_of_error thrown] at told
    cases told

/-- The reply's own outcome and summary, and of its directions every one that can be used. -/
structure FilteredFinding (outcome summary : Bytes) (directions : List Json) (finding : Finding) : Prop where
  outcome : finding.outcome = Worker.outcomeOf outcome
  summary : finding.summary = summary
  directions : finding.suggestedDirections.map leadOf = directions.filterMap usableLead

/-- Every direction can be read; or the outcome is the one of an unreadable reply anyway, and no direction
that could be used is lost. -/
def KeepsFinding (outcome : Bytes) (directions : List Json) : Prop :=
  AllRead leadFields directions ∨ (outcome ≠ ascii "success" ∧ outcome ≠ ascii "partial") ∧
    (unreadPart leadFields directions).filterMap usableLead = []

theorem outcomeOf_blank (outcome : Bytes) :
    Worker.outcomeOf outcome = .noInformation ↔ outcome ≠ ascii "success" ∧ outcome ≠ ascii "partial" := by
  unfold Worker.outcomeOf
  split_ifs with success part
  · simp [success]
  · simp [part]
  · simp [success, part]

/-- What is read of a list is all there is to use exactly when nothing to use comes after it. -/
theorem readPart_whole {α β : Type} (fields : Json → Option β) (usable : Json → Option α)
    (items : List Json) :
    (readPart fields items).filterMap usable = items.filterMap usable ↔
      (unreadPart fields items).filterMap usable = [] := by
  have split : items.filterMap usable =
      (readPart fields items).filterMap usable ++ (unreadPart fields items).filterMap usable := by
    rw [← List.filterMap_append, readPart_append]
  rw [split]
  exact List.self_eq_append_right

theorem parseWorkerResponse_filtered {parser : Parser} {raw outcome summary : Bytes} {parsed : Json}
    (states : States parser raw parsed outcome summary) (counter : Nat) (area : Bytes) :
    FilteredFinding outcome summary (listAt "directions" parsed)
        (Worker.parseWorkerResponse parser counter raw area).1 ↔
      KeepsFinding outcome (listAt "directions" parsed) := by
  have run := worker_reads states.parses states.outcome states.summary
    ⟨{ areaInvestigated := area }, counter⟩
  unfold Worker.parseWorkerResponse
  dsimp only
  rw [if_neg states.span]
  cases result : Worker.readFinding parser (extractJsonObject raw) ⟨{ areaInvestigated := area },
    counter⟩ with
  | ok _ p =>
    obtain ⟨all, after⟩ := run.ok result
    rw [readPart_of_allRead all] at after
    have whole : FilteredFinding outcome summary (listAt "directions" parsed) p.finding :=
      ⟨by rw [after.rest], by rw [after.rest], by simpa using after.directions⟩
    exact iff_of_true whole (.inl all)
  | error _ p =>
    obtain ⟨some, after⟩ := run.error result
    have kept : p.finding.suggestedDirections.map leadOf =
        (readPart leadFields (listAt "directions" parsed)).filterMap usableLead := by
      simpa using after.directions
    have said : p.finding.summary = summary := by rw [after.rest]
    constructor
    · intro filtered
      refine .inr ⟨(outcomeOf_blank outcome).1 filtered.outcome.symm, ?_⟩
      exact (readPart_whole _ _ _).1 (kept.symm.trans filtered.directions)
    · rintro (all | ⟨blank, none⟩)
      · exact absurd all some
      · refine ⟨((outcomeOf_blank outcome).2 blank).symm, said, ?_⟩
        exact kept.trans ((readPart_whole _ _ _).2 none)

/-! ### The editor -/

instance {α : Type} (fields : Json → Option α) (items : List Json) : Decidable (AllRead fields items) :=
  inferInstanceAs (Decidable (∀ item ∈ items, (fields item).isSome))

def reachedPart (edits directions : List Json) : List Json :=
  if AllRead editFields edits then readPart leadFields directions else []

def missedPart (edits directions : List Json) : List Json :=
  if AllRead editFields edits then unreadPart leadFields directions else directions

theorem reachedPart_append (edits directions : List Json) :
    reachedPart edits directions ++ missedPart edits directions = directions := by
  unfold reachedPart missedPart
  split_ifs
  · exact readPart_append directions
  · rfl

structure EditDirects (finding : EditFinding) (leads : List Lead) (after : EditFinding) : Prop where
  rest : after = { finding with suggestedDirections := after.suggestedDirections }
  directions : after.suggestedDirections.map leadOf = finding.suggestedDirections.map leadOf ++ leads

theorem EditDirects.refl (finding : EditFinding) : EditDirects finding [] finding := ⟨rfl, by simp⟩

theorem EditDirects.trans (a b c : EditFinding) (first second : List Lead) (one : EditDirects a first b)
    (two : EditDirects b second c) : EditDirects a (first ++ second) c := by
  have rest := congrArg (fun f => { f with suggestedDirections := c.suggestedDirections }) one.rest
  exact ⟨two.rest.trans rest, by rw [two.directions, one.directions, List.append_assoc]⟩

theorem editDirects_addDirection (t : Task) (finding : EditFinding) :
    EditDirects finding [leadOf t] (Editor.addDirection t finding) :=
  ⟨rfl, by simp [Editor.addDirection]⟩

theorem editOutcomeOf_stated {parsed : Json} {text stated : Bytes}
    (read : parsed.valueStr "outcome" (ascii "no_change") = .ok text)
    (given : textAt "outcome" parsed = some stated) : Editor.outcomeOf text = Editor.outcomeOf stated := by
  rcases textAt_of_ok read with same | ⟨same, rfl⟩
  · rw [same] at given
    cases given
    rfl
  · rw [same] at given
    cases given
    decide

/-- What the `try` block leaves of a reply whose outcome and summary can be read. -/
theorem editor_reads {parser : Parser} {text outcome summary : Bytes} {parsed : Json}
    (parses : parser.parse text = some parsed) (told : textAt "outcome" parsed = some outcome)
    (said : textAt "summary" parsed = some summary) (p : Parsing EditFinding) :
    let edits := listAt "edits" parsed
    let directions := listAt "directions" parsed
    let after (p' : Parsing EditFinding) := EditDirects
      { p.finding with
        outcome := Editor.outcomeOf outcome
        summary
        edits := p.finding.edits ++ (readPart editFields edits).filterMap usableEdit }
      ((reachedPart edits directions).filterMap usableLead) p'.finding
    Runs (Editor.readFinding parser text) p
      (fun _ p' => (AllRead editFields edits ∧ AllRead leadFields directions) ∧ after p')
      fun _ p' => ¬ (AllRead editFields edits ∧ AllRead leadFields directions) ∧ after p' := by
  intro edits directions after
  unfold Editor.readFinding
  rw [parses]
  refine Runs.bind (Runs.orThrow (fun outcomeStr read => ?_) fun e thrown => ?_)
  · refine Runs.bind (Runs.modify (Runs.bind (Runs.orThrow (fun text shown => ?_) fun e thrown => ?_)))
    · have same : text = summary := Option.some.inj ((textAt_of_read shown).symm.trans said)
      subst same
      refine Runs.bind (Runs.modify (Runs.bind (Runs.orThrow (fun listed found => ?_)
        fun e thrown => absurd thrown (valueJson_ne_error told))))
      rw [listAt_of_valueJson found]
      refine Runs.bind ((runs_elements Proposes.refl Proposes.trans readEdit_reads edits _).imp
        (fun _ q proposed => ?_) fun _ q proposed => ?_)
      · refine Runs.bind (Runs.orThrow (fun listed found => ?_)
          fun e thrown => absurd thrown (valueJson_ne_error told))
        rw [listAt_of_valueJson found]
        refine (runs_elements EditDirects.refl EditDirects.trans
          (readDirection_reads "edit-task-" EditDirects.refl editDirects_addDirection)
          directions q).imp (fun _ p' loop => ?_) fun _ p' loop => ?_
        · have now := loop.2
          simp only [after, reachedPart, if_pos proposed.1, ← editOutcomeOf_stated read told]
          rw [show q.finding = _ from proposed.2] at now
          exact ⟨⟨proposed.1, loop.1⟩, now⟩
        · have now := loop.2
          simp only [after, reachedPart, if_pos proposed.1, ← editOutcomeOf_stated read told]
          rw [show q.finding = _ from proposed.2] at now
          exact ⟨fun both => loop.1 both.2, now⟩
      · refine ⟨fun both => proposed.1 both.1, ?_⟩
        simp only [after, reachedPart, if_neg proposed.1, ← editOutcomeOf_stated read told]
        rw [show q.finding = _ from proposed.2]
        exact EditDirects.refl _
    · rw [textAt_of_error thrown] at said
      cases said
  · rw [textAt_of_error thrown] at told
    cases told

/-- The reply's own outcome and summary, and of both lists every element that can be used. -/
structure FilteredEdits (outcome summary : Bytes) (edits directions : List Json) (finding : EditFinding) :
    Prop where
  outcome : finding.outcome = Editor.outcomeOf outcome
  summary : finding.summary = summary
  edits : finding.edits = edits.filterMap usableEdit
  directions : finding.suggestedDirections.map leadOf = directions.filterMap usableLead

/-- Every element can be read; or the outcome is the one of an unreadable reply anyway, and nothing that
could be used is lost. -/
def KeepsEdits (outcome : Bytes) (edits directions : List Json) : Prop :=
  (AllRead editFields edits ∧ AllRead leadFields directions) ∨
    (outcome ≠ ascii "success" ∧ outcome ≠ ascii "partial") ∧
      (unreadPart editFields edits).filterMap usableEdit = [] ∧
      (missedPart edits directions).filterMap usableLead = []

theorem editOutcomeOf_blank (outcome : Bytes) :
    Editor.outcomeOf outcome = .noChangeNeeded ↔ outcome ≠ ascii "success" ∧ outcome ≠ ascii "partial" := by
  unfold Editor.outcomeOf
  split_ifs with success part
  · simp [success]
  · simp [part]
  · simp [success, part]

theorem reachedPart_whole (edits directions : List Json) :
    (reachedPart edits directions).filterMap usableLead = directions.filterMap usableLead ↔
      (missedPart edits directions).filterMap usableLead = [] := by
  have split : directions.filterMap usableLead = (reachedPart edits directions).filterMap usableLead ++
      (missedPart edits directions).filterMap usableLead := by
    rw [← List.filterMap_append, reachedPart_append]
  rw [split]
  exact List.self_eq_append_right

theorem parseEditResponse_filtered {parser : Parser} {raw outcome summary : Bytes} {parsed : Json}
    (states : States parser raw parsed outcome summary) (counter : Nat) (area : Bytes) :
    FilteredEdits outcome summary (listAt "edits" parsed) (listAt "directions" parsed)
        (Editor.parseEditResponse parser counter raw area).1 ↔
      KeepsEdits outcome (listAt "edits" parsed) (listAt "directions" parsed) := by
  have run := editor_reads states.parses states.outcome states.summary
    ⟨{ areaInvestigated := area }, counter⟩
  unfold Editor.parseEditResponse
  dsimp only
  rw [if_neg states.span]
  cases result : Editor.readFinding parser (extractJsonObject raw) ⟨{ areaInvestigated := area },
    counter⟩ with
  | ok _ p =>
    obtain ⟨all, after⟩ := run.ok result
    have proposed : p.finding.edits = (readPart editFields (listAt "edits" parsed)).filterMap usableEdit := by
      rw [after.rest]
      rfl
    have directed := after.directions
    rw [readPart_of_allRead all.1] at proposed
    rw [reachedPart, if_pos all.1, readPart_of_allRead all.2] at directed
    have whole : FilteredEdits outcome summary (listAt "edits" parsed) (listAt "directions" parsed)
        p.finding :=
      ⟨by rw [after.rest], by rw [after.rest], proposed, by simpa using directed⟩
    exact iff_of_true whole (.inl all)
  | error _ p =>
    obtain ⟨some, after⟩ := run.error result
    have proposed : p.finding.edits = (readPart editFields (listAt "edits" parsed)).filterMap usableEdit := by
      rw [after.rest]
      rfl
    have directed : p.finding.suggestedDirections.map leadOf =
        (reachedPart (listAt "edits" parsed) (listAt "directions" parsed)).filterMap usableLead := by
      simpa using after.directions
    have said : p.finding.summary = summary := by rw [after.rest]
    constructor
    · intro filtered
      refine .inr ⟨(editOutcomeOf_blank outcome).1 filtered.outcome.symm, ?_, ?_⟩
      · exact (readPart_whole _ _ _).1 (proposed.symm.trans filtered.edits)
      · exact (reachedPart_whole _ _).1 (directed.symm.trans filtered.directions)
    · rintro (all | ⟨blank, noEdit, noLead⟩)
      · exact absurd all some
      · refine ⟨((editOutcomeOf_blank outcome).2 blank).symm, said, ?_, ?_⟩
        · exact proposed.trans ((readPart_whole _ _ _).2 noEdit)
        · exact directed.trans ((reachedPart_whole _ _).2 noLead)

/-- A reply with an outcome and a summary is filtered element by element exactly when no element spoils
the reading of the rest. -/
theorem elements_filtered (parser : Parser) (raw outcome summary : Bytes) (parsed : Json)
    (states : States parser raw parsed outcome summary) (counter : Nat) (area : Bytes) :
    (FilteredFinding outcome summary (listAt "directions" parsed)
        (Worker.parseWorkerResponse parser counter raw area).1 ↔
      KeepsFinding outcome (listAt "directions" parsed)) ∧
    (FilteredEdits outcome summary (listAt "edits" parsed) (listAt "directions" parsed)
        (Editor.parseEditResponse parser counter raw area).1 ↔
      KeepsEdits outcome (listAt "edits" parsed) (listAt "directions" parsed)) :=
  ⟨parseWorkerResponse_filtered states counter area, parseEditResponse_filtered states counter area⟩

def strayReply : Bytes :=
  ascii "\x7b\"outcome\":\"success\",\"summary\":\"done\",\"directions\":[\"lib\"]\x7d"

def strayParsed : Json :=
  .obj [(ascii "outcome", .str (ascii "success")), (ascii "summary", .str (ascii "done")),
    (ascii "directions", .arr [.str (ascii "lib")])]

def strayParser : Parser := .table [(strayReply, strayParsed)] (by decide +kernel)

theorem stray_states : States strayParser strayReply strayParsed (ascii "success") (ascii "done") where
  span := by decide +kernel
  parses := by
    have whole : extractJsonObject strayReply = strayReply := by decide +kernel
    rw [whole]
    change [(strayReply, strayParsed)].lookup strayReply = some strayParsed
    exact List.lookup_cons_self
  outcome := by decide +kernel
  summary := by decide +kernel

theorem elements_filtered_stray :
    (FilteredFinding (ascii "success") (ascii "done") (listAt "directions" strayParsed)
        (Worker.parseWorkerResponse strayParser 0 strayReply (ascii "src")).1 ↔
      KeepsFinding (ascii "success") (listAt "directions" strayParsed)) ∧
    (FilteredEdits (ascii "success") (ascii "done") (listAt "edits" strayParsed)
        (listAt "directions" strayParsed)
        (Editor.parseEditResponse strayParser 0 strayReply (ascii "src")).1 ↔
      KeepsEdits (ascii "success") (listAt "edits" strayParsed) (listAt "directions" strayParsed)) :=
  elements_filtered strayParser strayReply (ascii "success") (ascii "done") strayParsed stray_states 0
    (ascii "src")

/-- One stray direction turns a success into a finding without information, and an edit that succeeded
into one that changes nothing. -/
theorem stray_spoils :
    ¬ FilteredFinding (ascii "success") (ascii "done") (listAt "directions" strayParsed)
      (Worker.parseWorkerResponse strayParser 0 strayReply (ascii "src")).1 ∧
    ¬ FilteredEdits (ascii "success") (ascii "done") (listAt "edits" strayParsed)
      (listAt "directions" strayParsed)
      (Editor.parseEditResponse strayParser 0 strayReply (ascii "src")).1 := by
  constructor
  · intro filtered
    have outcome := filtered.outcome
    revert outcome
    decide +kernel
  · intro filtered
    have outcome := filtered.outcome
    revert outcome
    decide +kernel

end CppCoder.ReplyReading
