import CppCoder.ChatPage
import CppCoder.ChatServer

/-! Whether the page learns that the server's request to Ollama failed in the middle of a reply. The server
writes its error line right behind what it has forwarded; the page reads it only if it stands on a line of
its own. -/

namespace CppCoder.UpstreamFailures
open Support Utf8 Program JsonText TextDecoder ChatServer ChatPage

/-! ### Lines that report an error -/

def reports (v : Value) : Bool := truthy (v.get (lit "error"))

def reportsLine (line : Text) : Bool := (parseLine line).any reports

/-- A handler throws at a line without having seen an error on it. -/
def stopsLine (stops : Value → Bool) (line : Text) : Bool :=
    (parseLine line).any fun v => !reports v && stops v

def tells (stops : Value → Bool) : List Text → Bool
  | [] => false
  | line :: rest => reportsLine line || (!stopsLine stops line && tells stops rest)

theorem tells_append (stops : Value → Bool) (first second : List Text) : tells stops (first ++ second) =
    (tells stops first || ((first.all fun line => !stopsLine stops line) && tells stops second)) := by
  induction first with
  | nil => rfl
  | cons line rest ih =>
    rw [List.cons_append, tells, tells, ih, List.all_cons]
    cases reportsLine line <;> cases stopsLine stops line <;> simp

/-- At which values a handler throws, and that otherwise the flag is set by values that report an error. -/
structure Handles {σ : Type} (saw : σ → Bool) (use : Value → EStateM Thrown σ Unit)
    (stops : Value → Bool) : Prop where
  told : ∀ v s, reports v = true → saw (finalState (use v s)) = true
  halted : ∀ v s, reports v = false → stops v = true → ∃ s', use v s = .error .typeError s' ∧ saw s' = saw s
  passed : ∀ v s, reports v = false → stops v = false → ∃ s', use v s = .ok () s' ∧ saw s' = saw s

theorem Handles.saw_lines {σ : Type} {saw : σ → Bool} {use : Value → EStateM Thrown σ Unit}
    {stops : Value → Bool} (handles : Handles saw use stops) (lines : List Text) (s : σ) :
    saw (finalState (lines.forM (onLine use) s)) = (saw s || tells stops lines) := by
  induction lines generalizing s with
  | nil => exact (Bool.or_false _).symm
  | cons line rest ih =>
    have run : (line :: rest).forM (onLine use) s =
      (onLine use line >>= fun _ => rest.forM (onLine use)) s := rfl
    rw [run, bind_run, tells, reportsLine, stopsLine]
    cases parsed : parseLine line with
    | none =>
      have quiet : onLine use line = return () := by
        unfold onLine
        rw [parsed]
      rw [quiet]
      exact ih s
    | some v =>
      have used : onLine use line = use v := by
        unfold onLine
        rw [parsed]
      rw [used, Option.any_some, Option.any_some]
      cases told : reports v with
      | true =>
        have seen := handles.told v s told
        rw [Bool.true_or, Bool.or_true]
        cases result : use v s with
        | ok _ s' =>
          rw [result] at seen
          exact (ih s').trans (by rw [show saw s' = true from seen, Bool.true_or])
        | error e s' =>
          rw [result] at seen
          exact seen
      | false =>
        cases stopped : stops v with
        | true =>
          obtain ⟨s', result, same⟩ := handles.halted v s told stopped
          rw [result]
          exact same.trans (Bool.or_false _).symm
        | false =>
          obtain ⟨s', result, same⟩ := handles.passed v s told stopped
          rw [result]
          exact (ih s').trans (by rw [same]; rfl)

def chatStops : Value → Bool
  | .null => true
  | _ => false

/-- A status that has no string form cannot be shown either. -/
def pullStops : Value → Bool
  | .null => true
  | v => !(v.get (lit "status")).all Value.printable

theorem chat_handles : Handles Chat.sawError chatObject chatStops := by
  have plain : ∀ v, chatStops v = false → chatObject v =
      if reports v then do
        modify fun chat => { chat with sawError := true }
        showError (v.get (lit "error"))
      else addContent ((v.get (lit "message")).bind (Value.get (lit "content"))) := by
    intro v proper
    cases v <;> first | rfl | cases proper
  refine ⟨?_, ?_, ?_⟩
  · intro v s told
    have proper : chatStops v = false := by
      cases v <;> first | rfl | cases told
    rw [plain v proper, if_pos told, bind_run]
    cases v.get (lit "error") with
    | none => rfl
    | some error => cases error <;> rfl
  · intro v s untold stopped
    cases v <;> cases stopped
    exact ⟨s, rfl, rfl⟩
  · intro v s untold proper
    rw [plain v proper, if_neg (by simp [untold])]
    cases (v.get (lit "message")).bind (Value.get (lit "content")) with
    | none => exact ⟨s, rfl, rfl⟩
    | some content => cases content <;> exact ⟨_, rfl, rfl⟩

theorem truthy_of_unprintable {v : Value} (unprintable : v.printable = false) : truthy (some v) = true := by
  cases v <;> first | rfl | cases unprintable

theorem showText_run (text : Option Value) (s : Pull) :
    showText text s = if text.all Value.printable then .ok () s else .error .typeError s := by
  unfold showText
  split_ifs <;> rfl

theorem takeStatus_run (status : Option Value) (s : Pull) :
    ∃ s', takeStatus status s = .ok () s' ∧ s'.sawError = s.sawError := by
  cases status with
  | none => exact ⟨s, rfl, rfl⟩
  | some v =>
    cases v with
    | str text =>
      unfold takeStatus
      dsimp only
      split_ifs
      · exact ⟨_, rfl, rfl⟩
      · exact ⟨s, rfl, rfl⟩
    | _ => exact ⟨s, rfl, rfl⟩

theorem showStatus_run (status : Option Value) (s : Pull) :
    if status.all Value.printable then ∃ s', showStatus status s = .ok () s' ∧ s'.sawError = s.sawError
    else showStatus status s = .error .typeError s := by
  unfold showStatus
  by_cases counts : truthy status = true
  · rw [if_pos counts, bind_run, showText_run]
    split_ifs
    · exact takeStatus_run status s
    · rfl
  · have printable : status.all Value.printable = true := by
      cases status with
      | none => rfl
      | some v =>
        by_contra unprintable
        exact counts (truthy_of_unprintable (by simpa using unprintable))
    rw [if_neg counts, if_pos printable]
    exact takeStatus_run status s

theorem pull_handles : Handles Pull.sawError pullObject pullStops := by
  have plain : ∀ v, v ≠ .null → pullObject v =
      if reports v then do
        modify fun pull => { pull with sawError := true }
        showText (v.get (lit "error"))
      else showStatus (v.get (lit "status")) := by
    intro v proper
    cases v <;> first | rfl | exact absurd rfl proper
  have stops : ∀ v, v ≠ .null → pullStops v = !(v.get (lit "status")).all Value.printable := by
    intro v proper
    cases v <;> first | rfl | exact absurd rfl proper
  refine ⟨?_, ?_, ?_⟩
  · intro v s told
    have proper : v ≠ .null := by
      rintro rfl
      cases told
    have first : (modify fun pull : Pull => { pull with sawError := true } : EStateM Thrown Pull Unit) s =
        .ok () { s with sawError := true } := rfl
    rw [plain v proper, if_pos told, bind_run, first]
    dsimp only
    rw [showText_run]
    split_ifs <;> rfl
  · intro v s untold stopped
    by_cases proper : v = .null
    · subst proper
      exact ⟨s, rfl, rfl⟩
    · have run := showStatus_run (v.get (lit "status")) s
      rw [stops v proper, Bool.not_eq_true'] at stopped
      rw [stopped, if_neg Bool.false_ne_true] at run
      rw [plain v proper, if_neg (by simp [untold]), run]
      exact ⟨s, rfl, rfl⟩
  · intro v s untold passed
    have proper : v ≠ .null := by
      rintro rfl
      cases passed
    have run := showStatus_run (v.get (lit "status")) s
    rw [stops v proper, Bool.not_eq_false'] at passed
    rw [if_pos passed] at run
    rw [plain v proper, if_neg (by simp [untold])]
    exact run

theorem send_sawError (chunks : List Bytes) : (send chunks).sawError =
    tells chatStops (allLines (decodeAll chunks.flatten)) := by
  have seen := chat_handles.saw_lines (allLines (decodeAll chunks.flatten)) {}
  rw [← readLoop_stream] at seen
  rw [show tells chatStops (allLines (decodeAll chunks.flatten)) =
    (({} : Chat).sawError || tells chatStops (allLines (decodeAll chunks.flatten))) from rfl, ← seen]
  unfold send
  cases readLoop (onLine chatObject) .start [] chunks {} with
  | error e chat => rfl
  | ok _ chat =>
    dsimp only [finalState]
    split_ifs with nothing unseen
    · exact nothing.2.symm
    · exact unseen.symm
    · exact (Bool.of_not_eq_false unseen).symm

theorem send_pushed (chunks : List Bytes) (seen : (send chunks).sawError = true) :
    (send chunks).pushed = none := by
  unfold send at seen ⊢
  cases result : readLoop (onLine chatObject) .start [] chunks {} with
  | error e chat => rfl
  | ok _ chat =>
    rw [result] at seen
    dsimp only at seen ⊢
    split_ifs at seen ⊢
    rfl

theorem pullModel_sawError (chunks : List Bytes) : (pullModel chunks).sawError =
    tells pullStops (allLines (decodeAll chunks.flatten)) := by
  have seen := pull_handles.saw_lines (allLines (decodeAll chunks.flatten)) {}
  rw [← readLoop_stream] at seen
  rw [show tells pullStops (allLines (decodeAll chunks.flatten)) =
    (({} : Pull).sawError || tells pullStops (allLines (decodeAll chunks.flatten))) from rfl, ← seen]
  unfold pullModel
  cases readLoop (onLine pullObject) .start [] chunks {} <;> rfl

theorem pullModel_success (chunks : List Bytes) (seen : (pullModel chunks).sawError = true) :
    (pullModel chunks).success = false := by
  unfold pullModel at seen ⊢
  cases result : readLoop (onLine pullObject) .start [] chunks {} with
  | error e pull => rfl
  | ok _ pull =>
    rw [result] at seen
    exact congrArg (!·) seen

/-! ### The server's error line -/

theorem parseLine_eq (line : Text) : parseLine line = parse (trim line) := by
  unfold parseLine
  dsimp only
  split_ifs with none
  · rw [none]
    rfl
  · rfl

theorem cut_newline {line : Text} (plain : 10 ∉ line) : cut (line ++ [10]) = ([line], []) := by
  induction line with
  | nil => rfl
  | cons c rest ih =>
    rw [List.mem_cons, not_or] at plain
    rw [List.cons_append, cut, ih plain.2]
    simp [Ne.symm plain.1]

theorem errorLine_text (message : Bytes) : (writeNdjsonError message).map UInt8.toNat =
    memberText (lit "error") (message.map UInt8.toNat) ++ [10] := by
  have opening : (ascii "\x7b\"error\":\"").map UInt8.toNat = [123, 34] ++ lit "error" ++
    [34, 58, 34] := by decide
  have closing : (ascii "\"\x7d\n").map UInt8.toNat = [34, 125] ++ [10] := by decide
  unfold writeNdjsonError memberText
  rw [List.map_append, List.map_append, opening, closing]
  simp only [List.append_assoc]

theorem errorLine_small {message : Bytes} (plain : ∀ b ∈ message, PlainByte b) :
    ∀ b ∈ writeNdjsonError message, b < 0x80 := by
  have opening : ∀ b ∈ ascii "\x7b\"error\":\"", b < 0x80 := ascii_small _
  have closing : ∀ b ∈ ascii "\"\x7d\n", b < 0x80 := ascii_small _
  unfold writeNdjsonError
  refine List.forall_mem_append.2 ⟨List.forall_mem_append.2 ⟨opening, ?_⟩, closing⟩
  intro b member
  rw [UInt8.lt_iff_toNat_lt]
  exact Nat.lt_succ_of_lt (plain b member).2.1

theorem plain_units {message : Bytes} (plain : ∀ b ∈ message, PlainByte b) :
    ∀ u ∈ message.map UInt8.toNat, Plain u := by
  intro u member
  obtain ⟨b, there, rfl⟩ := List.mem_map.1 member
  obtain ⟨printable, -, quote, slash⟩ := plain b there
  refine ⟨printable, fun same => quote (UInt8.toNat_inj.1 same), fun same => slash (UInt8.toNat_inj.1 same)⟩

/-- The forwarded bytes end on a line boundary, up to white space, and no line stops the handler before;
or one of their own lines reports an error. -/
def Delivered (stops : Value → Bool) (forwarded : Bytes) : Prop :=
  tells stops (cut (decodeAll forwarded)).1 = true ∨
    (∀ line ∈ (cut (decodeAll forwarded)).1, stopsLine stops line = false) ∧
      ∀ c ∈ (cut (decodeAll forwarded)).2, isBlank c = true

theorem lines_of_error (forwarded : Bytes) {message : Bytes} (plain : ∀ b ∈ message, PlainByte b) :
    allLines (decodeAll (forwarded ++ writeNdjsonError message)) = (cut (decodeAll forwarded)).1 ++
      [(cut (decodeAll forwarded)).2 ++ memberText (lit "error") (message.map UInt8.toNat), []] := by
  have nonempty : writeNdjsonError message ≠ [] := by
    intro none
    have length := congrArg List.length (congrArg (List.map UInt8.toNat) none)
    rw [errorLine_text, List.length_append] at length
    simp at length
  have line : 10 ∉ (cut (decodeAll forwarded)).2 ++ memberText (lit "error") (message.map UInt8.toNat) := by
    have units := plain_units plain
    have quiet : 10 ∉ message.map UInt8.toNat := fun member => absurd (units 10 member).1 (by decide)
    have name : 10 ∉ [123, 34] ++ lit "error" ++ [34, 58, 34] := by decide
    unfold memberText
    simp only [List.mem_append, not_or] at name ⊢
    exact ⟨cut_rest _, ⟨name, quiet⟩, by decide⟩
  rw [decodeAll_append_ascii forwarded (errorLine_small plain) nonempty, errorLine_text, allLines_append,
    ← List.append_assoc]
  unfold allLines
  rw [cut_newline line]
  rfl

theorem parse_errorLine (before : Text) {message : Bytes} (plain : ∀ b ∈ message, PlainByte b) :
    parseLine (before ++ memberText (lit "error") (message.map UInt8.toNat)) =
      if before.all isBlank then some (.obj [(lit "error", .str (message.map UInt8.toNat))]) else none := by
  have inert : Inert 101 := ⟨rfl, by decide, by decide, by decide, by decide⟩
  have name : lit "error" = 101 :: [114, 114, 111, 114] := by decide
  have letters : ∀ u ∈ 101 :: [114, 114, 111, 114], Plain u := by
    unfold Plain
    decide
  rw [parseLine_eq, name]
  exact parse_trim_append_member before inert letters (plain_units plain)

theorem tells_error (stops : Value → Bool) (forwarded : Bytes) {message : Bytes}
    (plain : ∀ b ∈ message, PlainByte b) (some : message ≠ []) :
    tells stops (allLines (decodeAll (forwarded ++ writeNdjsonError message))) = true ↔
        Delivered stops forwarded := by
  have parsed := parse_errorLine (cut (decodeAll forwarded)).2 plain
  have last : tells stops [(cut (decodeAll forwarded)).2 ++
    memberText (lit "error") (message.map UInt8.toNat), []] =
      (cut (decodeAll forwarded)).2.all isBlank := by
    have counts : reports (.obj [(lit "error", .str (message.map UInt8.toNat))]) = true := by
      have found : Value.get (lit "error") (.obj [(lit "error", .str (message.map UInt8.toNat))]) =
          Option.some (.str (message.map UInt8.toNat)) := by
        simp [Value.get]
      unfold reports
      rw [found]
      simpa [truthy] using some
    rw [tells, tells, reportsLine, stopsLine, parsed]
    split_ifs with blank
    · rw [Option.any_some, counts, blank]
      rfl
    · rw [Option.any_none, Option.any_none, Bool.eq_false_iff.2 blank]
      rfl
  rw [lines_of_error forwarded plain, tells_append, last, Bool.or_eq_true, Bool.and_eq_true,
    List.all_eq_true,
    List.all_eq_true]
  unfold Delivered
  simp only [Bool.not_eq_true']

theorem proxied_failed (stopped failed : String) (plainStopped : ∀ b ∈ ascii stopped, PlainByte b)
    (plainFailed : ∀ b ∈ ascii failed, PlainByte b) (some : ascii stopped ≠ [] ∧ ascii failed ≠ [])
    {status : Nat} (success : 200 ≤ status ∧ status < 300) (body : List Bytes) (e : HttpError) :
    ∃ message, message ≠ [] ∧ (∀ b ∈ message, PlainByte b) ∧
      (proxied stopped failed (.answers status body (.failed e))).flatten = body.flatten ++
          writeNdjsonError message := by
  refine ⟨if e.isRead then ascii stopped else ascii failed ++ e.phrase, ?_, ?_, ?_⟩
  · split_ifs
    · exact some.1
    · intro none
      exact some.2 (List.append_eq_nil_iff.1 none).1
  · split_ifs
    · exact plainStopped
    · exact List.forall_mem_append.2 ⟨plainFailed, e.plain⟩
  · unfold proxied
    dsimp only
    rw [if_pos success, List.flatten_append, List.flatten_singleton]

/-- When a reply fails on its way, the loops of the page see an error exactly when the error line is
delivered to them; then no reply is stored and no success is reported. -/
theorem failure_reported_iff {status : Nat} (success : 200 ≤ status ∧ status < 300)
    (body : List Bytes) (e : HttpError) (chats pulls : List Bytes)
    (chat : chats.flatten = (chatProvider (.answers status body (.failed e))).flatten)
    (pull : pulls.flatten = (pullProvider (.answers status body (.failed e))).flatten) :
    ((send chats).sawError = true ∧ (send chats).pushed = none ↔ Delivered chatStops body.flatten) ∧
      ((pullModel pulls).sawError = true ∧ (pullModel pulls).success = false ↔
          Delivered pullStops body.flatten) := by
  constructor
  · obtain ⟨message, some, plain, written⟩ := proxied_failed "Ollama did not send chat data for 60 seconds"
      "Ollama request failed: " (by decide +kernel) (by decide +kernel) (by decide) success body e
    have line : chats.flatten = body.flatten ++ writeNdjsonError message := chat.trans written
    rw [← tells_error chatStops body.flatten plain some, ← line, ← send_sawError]
    exact and_iff_left_of_imp (send_pushed chats)
  · obtain ⟨message, some, plain, written⟩ :=
      proxied_failed "Ollama did not send pull progress for 60 seconds"
      "Ollama pull request failed: " (by decide +kernel) (by decide +kernel) (by decide) success body e
    have line : pulls.flatten = body.flatten ++ writeNdjsonError message := pull.trans written
    rw [← tells_error pullStops body.flatten plain some, ← line, ← pullModel_sawError]
    exact and_iff_left_of_imp (pullModel_success pulls)

/-! Replies that fail inside their second line. -/

def readError : HttpError := ⟨true, ascii "Failed to read connection", by decide +kernel⟩

def halfChat : Bytes := ascii "\x7b\"message\":\x7b\"content\":\"Hel\"\x7d\x7d\n\x7b\"mess"

def halfPull : Bytes := ascii "\x7b\"status\":\"pulling\"\x7d\n\x7b\"sta"

/-- The error line is passed over: half a reply is stored, and a pull is reported as a success. -/
theorem failure_missed :
    send (chatProvider (.answers 200 [halfChat] (.failed readError))) = ⟨false, some (lit "Hel")⟩ ∧
      pullModel (pullProvider (.answers 200 [halfPull] (.failed readError))) = ⟨false, true⟩ := by
  decide +kernel

/-- The condition at work, on a reply that fails between two lines. -/
theorem failure_reported_iff_between :
    let body := [ascii "\x7b\"status\":\"pulling\"\x7d\n"]
    ((send (chatProvider (.answers 200 body (.failed readError)))).sawError = true ∧
        (send (chatProvider (.answers 200 body (.failed readError)))).pushed = none ↔
          Delivered chatStops body.flatten) ∧
      ((pullModel (pullProvider (.answers 200 body (.failed readError)))).sawError = true ∧
        (pullModel (pullProvider (.answers 200 body (.failed readError)))).success = false ↔
          Delivered pullStops body.flatten) :=
  failure_reported_iff (by decide) _ readError _ _ rfl rfl

end CppCoder.UpstreamFailures
