import CppCoder.ChatHistory

/-! What is pushed to the history in every run. However the chunks of a reply are interleaved with clicks,
timers and the other answers that the page waits for, it is what `send` makes of the chunks alone. -/

namespace CppCoder.ChatReplies
open Support Utf8 JsonText TextDecoder ChatSession ChatTurns ChatHistory Machine
open ChatPage (Chat cut onLine chatObject readLoop lit)

variable {browser : Browser} {page page' : Page} {call : Call}

/-- Where the loop stands that reads the reply: whatever may still come, it ends as if it had started with
all of it. -/
def Reads (call : Call) : Prop :=
  match call.awaiting with
  | .response => call.received = []
  | .chunk decoder buffer chat => ∀ more : List Bytes,
      readLoop (onLine chatObject) .start [] (call.received ++ more) {} =
        readLoop (onLine chatObject) decoder buffer more chat

theorem Reads.loop {decoder : Decoder} {buffer : Text} {chat : Chat} (reads : Reads call)
    (awaits : call.awaiting = .chunk decoder buffer chat) (more : List Bytes) :
    readLoop (onLine chatObject) .start [] (call.received ++ more) {} =
      readLoop (onLine chatObject) decoder buffer more chat := by
  unfold Reads at reads
  rw [awaits] at reads
  exact reads more

theorem reads_response (awaits : call.awaiting = .response) (none : call.received = []) : Reads call := by
  unfold Reads
  rw [awaits]
  exact none

theorem readLoop_cons (decoder : Decoder) (buffer : Text) (value : Bytes) (more : List Bytes) (chat : Chat) :
    readLoop (onLine chatObject) decoder buffer (value :: more) chat =
      ((cut (buffer ++ (decode decoder value).2)).1.forM (onLine chatObject) >>= fun _ =>
        readLoop (onLine chatObject) (decode decoder value).1 (cut (buffer ++ (decode decoder value).2)).2
          more) chat := rfl

theorem Reads.next {decoder : Decoder} {buffer : Text} {chat later : Chat} (reads : Reads call)
    (awaits : call.awaiting = .chunk decoder buffer chat) {value : Bytes}
    (taken : (cut (buffer ++ (decode decoder value).2)).1.forM (onLine chatObject) chat = .ok () later) :
    Reads { call with
      awaiting := .chunk (decode decoder value).1 (cut (buffer ++ (decode decoder value).2)).2 later
      received := call.received ++ [value] } := by
  intro more
  change readLoop (onLine chatObject) .start [] (call.received ++ [value] ++ more) {} = _
  rw [List.append_assoc, reads.loop awaits, List.singleton_append, readLoop_cons, Program.bind_run, taken]

def Reading (page : Page) : Prop := ∀ call ∈ page.calls, Reads call

theorem reading_idle (idle : Idle page) : Reading page := by
  intro call member
  rw [idle.calls] at member
  cases member

theorem reading_update (busy : Busy page call) {later : Call} (controller : later.controller = call.controller)
    (reads : Reads later) : Reading (update page later) := by
  intro other member
  change other ∈ page.calls.map _ at member
  rw [busy.calls, List.map_singleton, if_pos controller.symm, List.mem_singleton] at member
  exact member ▸ reads

theorem reading_step (single : Single page) (reading : Reading page) {e : Event}
    (stepped : step browser page e = some page') : Reading page' := by
  cases step_turn single stepped with
  | ask input idle =>
    intro call member
    rw [request_eq] at member
    change call ∈ page.calls ++ _ at member
    rw [idle.calls, List.nil_append, List.mem_singleton] at member
    subst member
    exact reads_response rfl rfl
  | stop => exact reading
  | clear confirmed =>
    intro call member
    rw [(newChat_calls page confirmed).1] at member
    exact reading call member
  | respond call busy awaits status body =>
    have reads := reading call (by simp [busy.calls])
    unfold respond
    split_ifs
    · exact reading_idle (idle_fail busy _)
    · have none : call.received = [] := by
        unfold Reads at reads
        rwa [awaits] at reads
      have begun : Reads { call with awaiting := .chunk .start [] {} } := by
        intro more
        change readLoop (onLine chatObject) .start [] (call.received ++ more) {} = _
        rw [none, List.nil_append]
      exact reading_update busy rfl begun
    · exact reading_idle (idle_fail busy _)
  | chunk call busy decoder buffer chat awaits value =>
    obtain ⟨left, -, failed⟩ | ⟨later, taken, waits⟩ :=
      takeChunk_cases browser page call decoder buffer chat value
    · exact failed ▸ reading_idle (idle_fail busy _)
    · rw [waits]
      exact reading_update (busy_showIn busy _ _ _) rfl
        ((reading call (by simp [busy.calls])).next awaits taken)
  | close call busy decoder buffer chat =>
    apply reading_idle
    obtain ⟨message, failed, -⟩ | ⟨later, -, -, replied⟩ :=
      endBody_cases browser page call decoder buffer chat
    · exact failed ▸ idle_fail busy _
    · exact replied ▸ idle_reply busy later
  | reject call busy e => exact reading_idle (idle_fail busy e)
  | expire call busy armed =>
    intro other member
    change other ∈ page.calls.map _ at member
    obtain ⟨old, there, rfl⟩ := List.mem_map.1 member
    have reads := reading old there
    split_ifs
    · exact reads
    · exact reads
  | aside e silent page' aside =>
    rw [aside.same]
    exact reading
  | reload page' again => exact reading_idle (single_opened again)

/-! ### The history after an event -/

/-- The text in the field becomes a question. -/
def Asks (page : Page) (input : Text) : Prop :=
  page.sending = false ∧ trim input ≠ [] ∧ page.select.value ≠ [] ∧ page.select.disabled = false ∧
    page.modelInfo.lookup page.select.value ≠ some false

instance (page : Page) (input : Text) : Decidable (Asks page input) :=
  inferInstanceAs (Decidable (_ ∧ _ ∧ _ ∧ _ ∧ _))

/-- The messages that a reply leaves, of which there is one at most. -/
def pushed (chunks : List Bytes) : List Message := (ChatPage.send chunks).pushed.toList.map (⟨.assistant, ·⟩)

/-- The history behind an event, by the chunks that came in for each call before it. -/
def historyAfter (page : Page) (chunks : Nat → List Bytes) : Event → List Message
  | .send input => if Asks page input then page.history ++ [⟨.user, trim input⟩] else page.history
  | .newChat confirmed => if confirmed then [] else page.history
  | .closed controller => page.history ++ pushed (chunks controller)
  | _ => page.history

def received (page : Page) (controller : Nat) : List Bytes := (page.call controller).elim [] Call.received

theorem send_end {decoder : Decoder} {buffer : Text} {chat : Chat} (reads : Reads call)
    (awaits : call.awaiting = .chunk decoder buffer chat) :
    readLoop (onLine chatObject) .start [] call.received {} =
      onLine chatObject (buffer ++ flush decoder) chat := by
  have ended := reads.loop awaits []
  rwa [List.append_nil] at ended

theorem endBody_history (reads : Reads call) {decoder : Decoder} {buffer : Text} {chat : Chat}
    (awaits : call.awaiting = .chunk decoder buffer chat) :
    (endBody browser page call decoder buffer chat).history = page.history ++ pushed call.received := by
  have ended := send_end reads awaits
  unfold endBody pushed ChatPage.send
  rw [ended]
  cases onLine chatObject (buffer ++ flush decoder) chat with
  | error e left =>
    cases e
    exact (List.append_nil _).symm
  | ok _ later =>
    dsimp only
    split_ifs with empty quiet
    · exact (List.append_nil _).symm
    · unfold reply
      rw [quiet]
      rfl
    · unfold reply
      rw [Bool.not_eq_false] at quiet
      rw [quiet]
      exact (List.append_nil _).symm

theorem Busy.call_eq (busy : Busy page call) : page.call call.controller = some call := by
  unfold Page.call
  rw [busy.calls]
  simp

theorem newChat_history (page : Page) (confirmed : Bool) :
    (newChat browser page confirmed).history = if confirmed then [] else page.history := by
  unfold newChat
  split_ifs with keeps sure sure
  · cases sure.symm.trans keeps.2
  · rfl
  · rw [renderAll_eq]
    rfl
  · rw [renderAll_eq]
    rw [not_and_or, not_not] at keeps
    exact (keeps.resolve_right (fun other => other (by simpa using sure))).symm

theorem send_asks (browser : Browser) {input : Text} (asks : Asks page input) :
    ChatSession.send browser page input = request browser page (trim input) := by
  obtain ⟨quiet, some, chosen, enabled, ready⟩ := asks
  unfold ChatSession.send
  rw [if_neg (by simp [quiet]), if_neg some, if_neg (by simp [chosen, enabled]), if_neg ready]

theorem send_refused (browser : Browser) {input : Text} (refused : ¬ Asks page input) :
    (ChatSession.send browser page input).history = page.history := by
  unfold ChatSession.send
  split_ifs with busy blank unchosen unpulled
  · rfl
  · rfl
  · rfl
  · rfl
  · rw [not_or, Bool.not_eq_true] at unchosen
    exact absurd ⟨by simpa using busy, blank, unchosen.1, unchosen.2, unpulled⟩ refused

theorem step_history (single : Single page) (reading : Reading page) {e : Event}
    (stepped : step browser page e = some page') (stays : e ≠ .reload) :
    page'.history = historyAfter page (received page) e := by
  by_cases sends : ∃ input, e = .send input
  · obtain ⟨input, rfl⟩ := sends
    cases stepped
    change _ = if Asks page input then page.history ++ [⟨.user, trim input⟩] else page.history
    split_ifs with asks
    · rw [send_asks browser asks, request_eq]
      rfl
    · exact send_refused browser asks
  · cases step_turn single stepped with
    | ask input => exact absurd ⟨input, rfl⟩ sends
    | stop input => exact absurd ⟨input, rfl⟩ sends
    | clear confirmed => exact newChat_history page confirmed
    | respond call busy awaits status body =>
      unfold respond
      split_ifs <;> rfl
    | chunk call busy decoder buffer chat awaits value =>
      obtain ⟨left, -, failed⟩ | ⟨later, -, waits⟩ :=
        takeChunk_cases browser page call decoder buffer chat value
      · rw [failed]
        rfl
      · rw [waits]
        rfl
    | close call busy decoder buffer chat awaits =>
      change _ = page.history ++ pushed (received page call.controller)
      unfold received
      rw [Busy.call_eq busy]
      exact endBody_history (reading call (by simp [busy.calls])) awaits
    | reject call busy e => rfl
    | expire call busy armed => rfl
    | aside e silent page' aside =>
      have same : historyAfter page (received page) e = page.history := by
        cases e with
        | send input => exact absurd ⟨input, rfl⟩ sends
        | newChat => cases silent
        | closed => cases silent
        | _ => rfl
      rw [same, aside.same]
    | reload page' again => exact absurd rfl stays

/-- A question is sent with the whole history, of which it is the last message. -/
def SendsHistory (page : Page) (e : Event) (page' : Page) : Prop :=
  ∀ input, e = .send input → Asks page input →
    ∃ call, page'.calls = [call] ∧ call.request = ⟨page.select.value, page'.history⟩

theorem sends_history (single : Single page) {e : Event} (stepped : step browser page e = some page') :
    SendsHistory page e page' := by
  intro input sent asks
  subst sent
  cases stepped
  have idle : Idle page := by
    obtain idle | ⟨call, busy⟩ := single
    · exact idle
    · cases asks.1.symm.trans busy.sending
  rw [send_asks browser asks]
  refine ⟨asked page (trim input), (busy_request idle _).calls, ?_⟩
  rw [request_eq]
  rfl

theorem reading_reached (reached : Reached browser page) : Reading page := by
  obtain ⟨stored, storedModel, showUncensored, first, events, open_, ran⟩ := reached
  have start := single_opened open_
  have both : Single page ∧ Reading page := by
    refine run_invariant (fun page => Single page ∧ Reading page) ?_ ⟨.inl start, reading_idle start⟩ ran
    intro s e s' holds stepped
    exact ⟨single_step holds.1 stepped, reading_step holds.1 holds.2 stepped⟩
  exact both.2

/-! ### The chunks that came in -/

def comesIn (chunks : Nat → List Bytes) : Event → Nat → List Bytes
  | .chunk call value, controller => if controller = call then chunks call ++ [value] else chunks controller
  | .reload, _ => []
  | _, controller => chunks controller

/-- The chunks of each call, from the events of a run alone. -/
def chunksOf (events : List Event) : Nat → List Bytes := events.foldl comesIn fun _ => []

/-- The calls of a page have read the chunks that came in for them, and no others came in. -/
structure Received (chunks : Nat → List Bytes) (page : Page) : Prop where
  counted : ∀ call ∈ page.calls, call.controller + 1 = page.controllers
  calls : ∀ call ∈ page.calls, call.received = chunks call.controller
  later : ∀ controller, page.controllers ≤ controller → chunks controller = []

theorem Received.kept {chunks : Nat → List Bytes} (before : Received chunks page)
    (counted : page'.controllers = page.controllers)
    (calls : ∀ call ∈ page'.calls, ∃ old ∈ page.calls, old.controller = call.controller ∧
      old.received = call.received) : Received chunks page' := by
  refine ⟨fun call member => ?_, fun call member => ?_, fun controller later => ?_⟩
  · obtain ⟨old, there, same, -⟩ := calls call member
    rw [counted, ← same]
    exact before.counted old there
  · obtain ⟨old, there, same, read⟩ := calls call member
    rw [← read, ← same]
    exact before.calls old there
  · exact before.later controller (counted ▸ later)

theorem received_idle {chunks : Nat → List Bytes} (idle : Idle page)
    (later : ∀ controller, page.controllers ≤ controller → chunks controller = []) : Received chunks page := by
  refine ⟨fun call member => ?_, fun call member => ?_, later⟩
  · rw [idle.calls] at member
    cases member
  · rw [idle.calls] at member
    cases member

theorem Received.ended {chunks : Nat → List Bytes} (before : Received chunks page)
    (counted : page'.controllers = page.controllers) (idle : Idle page') : Received chunks page' :=
  received_idle idle fun controller later => before.later controller (counted ▸ later)

theorem newChat_controllers (page : Page) (confirmed : Bool) :
    (newChat browser page confirmed).controllers = page.controllers := by
  unfold newChat
  split_ifs
  · rfl
  · rw [renderAll_eq]
    rfl

theorem reply_controllers (page : Page) (call : Call) (chat : Chat) :
    (reply browser page call chat).controllers = page.controllers := by
  unfold reply
  split_ifs <;> rfl

theorem received_asked {chunks : Nat → List Bytes} (before : Received chunks page) (idle : Idle page)
    (text : Text) : Received chunks (request browser page text) := by
  rw [request_eq]
  have only : ∀ call ∈ page.calls ++ [asked page text], call = asked page text := by
    simp [idle.calls]
  refine ⟨fun call member => ?_, fun call member => ?_, fun controller later => ?_⟩
  · obtain rfl := only call member
    rfl
  · obtain rfl := only call member
    exact (before.later _ (Nat.le_refl _)).symm
  · exact before.later controller (Nat.le_of_succ_le later)

theorem received_chunk {chunks : Nat → List Bytes} (before : Received chunks page) {call : Call}
    (busy : Busy page call) (decoder : Decoder) (buffer : Text) (chat : Chat) (value : Bytes) :
    Received (comesIn chunks (.chunk call.controller value))
      (takeChunk browser page call decoder buffer chat value) := by
  have member : call ∈ page.calls := by simp [busy.calls]
  have begun := before.counted call member
  have own : comesIn chunks (.chunk call.controller value) call.controller = call.received ++ [value] := by
    change (if call.controller = call.controller then _ else _) = _
    rw [if_pos rfl, before.calls call member]
  have later : ∀ controller, page.controllers ≤ controller →
      comesIn chunks (.chunk call.controller value) controller = [] := by
    intro controller beyond
    change (if controller = call.controller then _ else _) = _
    rw [if_neg (by omega)]
    exact before.later controller beyond
  obtain ⟨left, -, failed⟩ | ⟨later', taken, waits⟩ :=
    takeChunk_cases browser page call decoder buffer chat value
  · rw [failed]
    exact received_idle (idle_fail busy _) later
  · rw [waits]
    have only : ∀ other ∈ page.calls.map (fun other => if other.controller = call.controller then { call with
        awaiting := .chunk (decode decoder value).1 (cut (buffer ++ (decode decoder value).2)).2 later'
        received := call.received ++ [value] } else other), other = { call with
        awaiting := .chunk (decode decoder value).1 (cut (buffer ++ (decode decoder value).2)).2 later'
        received := call.received ++ [value] } := by
      simp [busy.calls]
    refine ⟨fun other there => ?_, fun other there => ?_, later⟩
    · obtain rfl := only other there
      exact begun
    · obtain rfl := only other there
      exact own.symm

theorem received_step (single : Single page) {chunks : Nat → List Bytes} (before : Received chunks page) {e : Event}
    (stepped : step browser page e = some page') : Received (comesIn chunks e) page' := by
  have same : ∀ {other : Page}, other.calls = page.calls → ∀ call ∈ other.calls, ∃ old ∈ page.calls,
      old.controller = call.controller ∧ old.received = call.received :=
    fun equal call member => ⟨call, equal ▸ member, rfl, rfl⟩
  cases step_turn single stepped with
  | ask input idle => exact received_asked before idle _
  | stop input call busy => exact before.kept rfl (same rfl)
  | clear confirmed =>
    exact before.kept (newChat_controllers page confirmed) (same (newChat_calls page confirmed).1)
  | respond call busy awaits status body =>
    change Received chunks _
    unfold respond
    split_ifs
    · exact before.ended rfl (idle_fail busy _)
    · refine before.kept rfl fun other member => ?_
      change other ∈ page.calls.map _ at member
      rw [busy.calls, List.map_singleton, if_pos rfl, List.mem_singleton] at member
      exact ⟨call, by simp [busy.calls], by rw [member], by rw [member]⟩
    · exact before.ended rfl (idle_fail busy _)
  | chunk call busy decoder buffer chat awaits value => exact received_chunk before busy decoder buffer chat value
  | close call busy decoder buffer chat =>
    obtain ⟨message, failed, -⟩ | ⟨later, -, -, replied⟩ :=
      endBody_cases browser page call decoder buffer chat
    · rw [failed]
      exact before.ended rfl (idle_fail busy _)
    · rw [replied]
      exact before.ended (reply_controllers page call later) (idle_reply busy later)
  | reject call busy e => exact before.ended rfl (idle_fail busy e)
  | expire call busy armed =>
    refine before.kept rfl fun other member => ?_
    obtain ⟨old, there, rfl⟩ := List.mem_map.1 (show other ∈ page.calls.map _ from member)
    refine ⟨old, there, ?_⟩
    split_ifs <;> exact ⟨rfl, rfl⟩
  | aside e silent page' aside =>
    have chunks : comesIn chunks e = chunks := by
      cases e <;> first | rfl | cases silent
    rw [chunks]
    exact before.kept (by rw [aside.same]) (same (by rw [aside.same]))
  | reload page' again => exact received_idle (single_opened again) fun _ _ => rfl

theorem received_run {stored storedModel : Option Text} {showUncensored : Bool} {first : Page}
    {events : List Event} (open_ : opened stored storedModel showUncensored = some first)
    (ran : run (step browser) first events = some page) : Received (chunksOf events) page := by
  have start : Received (chunksOf []) first := received_idle (single_opened open_) fun _ _ => rfl
  refine run_trace (fun events page => Received (chunksOf events) page) start ?_ ran
  intro seen between e after before holds stepped
  have reached : Reached browser between := ⟨stored, storedModel, showUncensored, first, seen, open_, before⟩
  unfold chunksOf
  rw [List.foldl_append]
  exact received_step reached.single holds stepped

theorem received_chunks {chunks : Nat → List Bytes} (before : Received chunks page) {e : Event}
    (stepped : step browser page e = some page') :
    historyAfter page (received page) e = historyAfter page chunks e := by
  cases e with
  | closed controller =>
    obtain ⟨call, found, -⟩ := Option.bind_eq_some_iff.1 stepped
    have named : call.controller = controller := by simpa using List.find?_some found
    have read := before.calls call (List.mem_of_find?_eq_some found)
    change page.history ++ pushed ((page.call controller).elim [] Call.received) = _
    rw [found, Option.elim_some, read, named]
    rfl
  | _ => rfl

/-- The exact growth of the history, in every run. -/
theorem history_grows (browser : Browser) {stored storedModel : Option Text} {showUncensored : Bool}
    {first page : Page} {events : List Event} (open_ : opened stored storedModel showUncensored = some first)
    (ran : run (step browser) first events = some page) :
    ∀ e page', step browser page e = some page' → e ≠ .reload →
      page'.history = historyAfter page (chunksOf events) e ∧ SendsHistory page e page' := by
  have reached : Reached browser page := ⟨stored, storedModel, showUncensored, first, events, open_, ran⟩
  intro e page' stepped stays
  refine ⟨?_, sends_history reached.single stepped⟩
  rw [step_history reached.single (reading_reached reached) stepped stays,
    received_chunks (received_run open_ ran) stepped]

def answering : List Event := greeting ++ [.responded 0 200 true,
  .chunk 0 (Utf8.ascii "\x7b\"message\":\x7b\"content\":\"Hel"), .newChat true,
  .chunk 0 (Utf8.ascii "lo\"\x7d\x7d")]

def answeredPage : Page := (run (step steady) firstPage answering).get (by decide +kernel)

theorem answeredPage_eq : run (step steady) firstPage answering = some answeredPage :=
  (Option.some_get _).symm

def closedPage : Page := (step steady answeredPage (.closed 0)).get (by decide +kernel)

theorem history_grows_answering :
    closedPage.history = historyAfter answeredPage (chunksOf answering) (.closed 0) ∧
      SendsHistory answeredPage (.closed 0) closedPage :=
  history_grows steady firstPage_eq answeredPage_eq (.closed 0) closedPage (Option.some_get _).symm
    (by simp)

example : closedPage.history = [⟨.assistant, lit "Hello"⟩] := by decide +kernel

end CppCoder.ChatReplies
