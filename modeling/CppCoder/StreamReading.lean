import CppCoder.UpstreamFailures

/-! What the page makes of a stream that is read to its end: it does not matter how the bytes come in
chunks, but a pull that just stops counts as a success. -/

namespace CppCoder.StreamReading
open Support Utf8 Program JsonText TextDecoder ChatPage UpstreamFailures

/-- The lines of a stream of bytes. -/
def linesOf (stream : Bytes) : List Text := allLines (decodeAll stream)

/-- The handler neither sees an error on the line nor throws at it. -/
def Quiet (stops : Value → Bool) (line : Text) : Prop :=
  reportsLine line = false ∧ stopsLine stops line = false

section Handles
variable {σ : Type} {saw : σ → Bool} {use : Value → EStateM Thrown σ Unit} {stops : Value → Bool}

theorem onLine_some {line : Text} {v : Value} (parsed : parseLine line = some v) :
    onLine use line = use v := by
  unfold onLine
  rw [parsed]

theorem onLine_none {line : Text} (parsed : parseLine line = none) : onLine use line = return () := by
  unfold onLine
  rw [parsed]

theorem quiet_some {line : Text} {v : Value} (parsed : parseLine line = some v) :
    Quiet stops line ↔ reports v = false ∧ stops v = false := by
  unfold Quiet reportsLine stopsLine
  rw [parsed, Option.any_some, Option.any_some]
  cases reports v <;> simp

theorem quiet_none {line : Text} (parsed : parseLine line = none) : Quiet stops line := by
  unfold Quiet reportsLine stopsLine
  rw [parsed]
  exact ⟨rfl, rfl⟩

theorem unseen_iff (handles : Handles saw use stops) (lines : List Text) {s : σ} (fresh : saw s = false) :
    (∃ s', lines.forM (onLine use) s = .ok () s' ∧ saw s' = false) ↔ ∀ line ∈ lines, Quiet stops line := by
  induction lines generalizing s with
  | nil => exact iff_of_true ⟨s, rfl, fresh⟩ fun _ none => absurd none List.not_mem_nil
  | cons line rest ih =>
    have run : (line :: rest).forM (onLine use) s =
      (onLine use line >>= fun _ => rest.forM (onLine use)) s := rfl
    rw [run, bind_run, List.forall_mem_cons]
    cases parsed : parseLine line with
    | none =>
      rw [onLine_none parsed]
      exact (ih fresh).trans (and_iff_right (quiet_none parsed)).symm
    | some v =>
      rw [onLine_some parsed, quiet_some parsed]
      cases told : reports v with
      | true =>
        have seen := handles.told v s told
        refine iff_of_false ?_ (by simp)
        rintro ⟨s', result, unseen⟩
        cases first : use v s with
        | error e t =>
          rw [first] at result
          cases result
        | ok _ t =>
          rw [first] at seen result
          -- a flag that is set stays set
          have kept := handles.saw_lines rest t
          rw [show saw t = true from seen, show rest.forM (onLine use) t = _ from result] at kept
          exact absurd (kept.symm.trans unseen) (by simp)
      | false =>
        cases stopped : stops v with
        | true =>
          obtain ⟨t, first, -⟩ := handles.halted v s told stopped
          rw [first]
          refine iff_of_false ?_ (by simp)
          rintro ⟨s', result, -⟩
          cases result
        | false =>
          obtain ⟨t, first, same⟩ := handles.passed v s told stopped
          rw [first]
          exact (ih (same.trans fresh)).trans (and_iff_right ⟨rfl, rfl⟩).symm

end Handles

/-! ### The reply in a chat -/

/-- What a line adds to the reply. -/
def contentOf (line : Text) : Text :=
  match (parseLine line).bind fun v => (v.get (lit "message")).bind (Value.get (lit "content")) with
  | some (.str content) => content
  | _ => []

theorem chatObject_quiet {v : Value} (untold : reports v = false) (proper : chatStops v = false) :
    chatObject v = addContent ((v.get (lit "message")).bind (Value.get (lit "content"))) := by
  unfold reports at untold
  cases v with
  | null => cases proper
  | _ => simp only [chatObject, untold, Bool.false_eq_true, if_false]

theorem chatLine_quiet {line : Text} (quiet : Quiet chatStops line) (chat : Chat) :
    onLine chatObject line chat =
      .ok () { chat with assistantContent := chat.assistantContent ++ contentOf line } := by
  unfold contentOf
  cases parsed : parseLine line with
  | none =>
    rw [onLine_none parsed]
    simp only [Option.bind_none, List.append_nil]
    rfl
  | some v =>
    obtain ⟨untold, proper⟩ := (quiet_some parsed).1 quiet
    rw [onLine_some parsed, chatObject_quiet untold proper, Option.bind_some]
    cases (v.get (lit "message")).bind (Value.get (lit "content")) with
    | none => simp only [addContent, List.append_nil]; rfl
    | some content =>
      cases content with
      | str text => rfl
      | _ => simp only [addContent, List.append_nil]; rfl

theorem chatLines_quiet {lines : List Text} (quiet : ∀ line ∈ lines, Quiet chatStops line) (chat : Chat) :
    lines.forM (onLine chatObject) chat =
      .ok () { chat with assistantContent := chat.assistantContent ++ lines.flatMap contentOf } := by
  induction lines generalizing chat with
  | nil =>
    rw [List.flatMap_nil, List.append_nil]
    rfl
  | cons line rest ih =>
    obtain ⟨first, later⟩ := List.forall_mem_cons.1 quiet
    have run : (line :: rest).forM (onLine chatObject) chat =
      (onLine chatObject line >>= fun _ => rest.forM (onLine chatObject)) chat := rfl
    rw [run, bind_run, chatLine_quiet first]
    dsimp only
    rw [ih later, List.flatMap_cons, List.append_assoc]

/-- A handler that only writes down what it is given. -/
def noteLine (line : Text) : EStateM Thrown (List Text) Unit := modify fun lines => lines ++ [line]

theorem noteLine_forM (lines noted : List Text) : lines.forM noteLine noted = .ok () (noted ++ lines) := by
  induction lines generalizing noted with
  | nil =>
    rw [List.append_nil]
    rfl
  | cons line rest ih =>
    have run : (line :: rest).forM noteLine noted = rest.forM noteLine (noted ++ [line]) := rfl
    rw [run, ih, List.append_assoc]
    rfl

/-- However a stream is cut into chunks, both loops handle the same lines and end alike; and without an
error the reply is what the lines add to it, in order. -/
theorem chunks_irrelevant (first second : List Bytes) (same : first.flatten = second.flatten) :
    (∀ (σ : Type) (handleLine : Text → EStateM Thrown σ Unit),
      readLoop handleLine .start [] first = readLoop handleLine .start [] second) ∧
    readLoop noteLine .start [] first [] = .ok () (linesOf first.flatten) ∧
    send first = send second ∧ pullModel first = pullModel second ∧
    ((∃ chat, readLoop (onLine chatObject) .start [] first {} = .ok () chat ∧ chat.sawError = false) ↔
      ∀ line ∈ linesOf first.flatten, Quiet chatStops line) ∧
    ∀ chat, readLoop (onLine chatObject) .start [] first {} = .ok () chat → chat.sawError = false →
      chat.assistantContent = (linesOf first.flatten).flatMap contentOf := by
  have loops : ∀ (σ : Type) (handleLine : Text → EStateM Thrown σ Unit),
      readLoop handleLine .start [] first = readLoop handleLine .start [] second := by
    intro σ handleLine
    rw [readLoop_stream, readLoop_stream, same]
  have noted : readLoop noteLine .start [] first [] = .ok () (linesOf first.flatten) := by
    rw [readLoop_stream]
    exact noteLine_forM _ []
  have ends := unseen_iff chat_handles (linesOf first.flatten) (show Chat.sawError {} = false from rfl)
  refine ⟨loops, noted, ?_, ?_, ?_, ?_⟩
  · unfold send
    rw [loops]
  · unfold pullModel
    rw [loops]
  · rw [readLoop_stream]
    exact ends
  · intro chat result unseen
    rw [readLoop_stream] at result
    have quiet := ends.1 ⟨chat, result, unseen⟩
    have settled := (chatLines_quiet quiet {}).symm.trans result
    cases settled
    rfl

/-- A line that is cut within a character and within the end of the line. -/
theorem chunks_irrelevant_cut :
    send [[123, 34, 195], [169, 34, 58, 49, 125, 13], [10]] =
      send [[123, 34, 195, 169, 34, 58, 49, 125, 13, 10]] :=
  (chunks_irrelevant [[123, 34, 195], [169, 34, 58, 49, 125, 13], [10]]
    [[123, 34, 195, 169, 34, 58, 49, 125, 13, 10]] (by decide)).2.2.1

/-- The object has the status that ends a pull. -/
def saysSuccess (v : Value) : Bool :=
  match v.get (lit "status") with
  | some (.str status) => status == lit "success"
  | _ => false

/-- A line says that the pull succeeded, and none says that it failed. -/
def Confirmed (stream : Bytes) : Prop :=
  (∃ line ∈ linesOf stream, (parseLine line).any saysSuccess = true) ∧
    ∀ line ∈ linesOf stream, reportsLine line = false

theorem pullModel_success (chunks : List Bytes) :
    (pullModel chunks).success = true ↔ ∀ line ∈ linesOf chunks.flatten, Quiet pullStops line := by
  have ends := unseen_iff pull_handles (linesOf chunks.flatten) (show Pull.sawError {} = false from rfl)
  rw [← ends]
  unfold pullModel
  rw [readLoop_stream]
  change _ ↔ ∃ s', (allLines (decodeAll chunks.flatten)).forM (onLine pullObject) {} = .ok () s' ∧ _
  cases (allLines (decodeAll chunks.flatten)).forM (onLine pullObject) {} with
  | ok _ pull => simp
  | error e pull => simp

/-- A reported success is one that Ollama reported exactly if Ollama did report it, or a line shows an
error, or one makes the handler throw. -/
theorem pull_confirmed_iff (chunks : List Bytes) :
    ((pullModel chunks).success = true → Confirmed chunks.flatten) ↔
      (∃ line ∈ linesOf chunks.flatten, (parseLine line).any saysSuccess = true) ∨
      (∃ line ∈ linesOf chunks.flatten, reportsLine line = true) ∨
      ∃ line ∈ linesOf chunks.flatten, stopsLine pullStops line = true := by
  rw [pullModel_success]
  constructor
  · intro honest
    by_cases quiet : ∀ line ∈ linesOf chunks.flatten, Quiet pullStops line
    · exact .inl (honest quiet).1
    · push Not at quiet
      obtain ⟨line, member, loud⟩ := quiet
      unfold Quiet at loud
      cases told : reportsLine line with
      | true => exact .inr (.inl ⟨line, member, told⟩)
      | false =>
        cases stopped : stopsLine pullStops line with
        | true => exact .inr (.inr ⟨line, member, stopped⟩)
        | false => exact absurd ⟨told, stopped⟩ loud
  · rintro (said | ⟨line, member, told⟩ | ⟨line, member, stopped⟩) quiet
    · exact ⟨said, fun line member => (quiet line member).1⟩
    · exact absurd (quiet line member).1 (by simp [told])
    · exact absurd (quiet line member).2 (by simp [stopped])

def cutPull : Bytes := ascii "\x7b\"status\":\"pulling manifest\"\x7d\n"

/-- A pull without a last word, or without any, is shown as a success. -/
theorem pull_unconfirmed :
    ((pullModel [cutPull]).success = true ∧ ¬ Confirmed [cutPull].flatten) ∧
      (pullModel []).success = true ∧ ¬ Confirmed ([] : List Bytes).flatten := by
  refine ⟨⟨by decide +kernel, ?_⟩, by decide +kernel, ?_⟩
  · rintro ⟨said, -⟩
    revert said
    decide +kernel
  · rintro ⟨said, -⟩
    revert said
    decide +kernel

end CppCoder.StreamReading
