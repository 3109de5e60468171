import CppCoder.ChatSession

/-! That the chat page makes one request at a time, whatever is clicked, answered or timed out in which
order, and that only the request in flight is ever aborted. -/

namespace CppCoder.ChatTurns
open Support Utf8 JsonText TextDecoder ChatSession Machine
open ChatPage (Chat cut onLine chatObject readLoop)

variable {browser : Browser} {page page' : Page} {call : Call}

def bubblesFrom (node : Nat) : List Message → List Bubble
  | [] => []
  | m :: rest => ⟨node, m.role, m.content, false⟩ :: bubblesFrom (node + 1) rest

theorem renderAll_eq (page : Page) : renderAll page =
    { page with shown := bubblesFrom page.nodes page.history, nodes := page.nodes + page.history.length } := by
  have appended : ∀ (messages : List Message) (page : Page),
      messages.foldl (fun page m => makeBubble page m.role m.content false) page =
        { page with
          shown := page.shown ++ bubblesFrom page.nodes messages
          nodes := page.nodes + messages.length } := by
    intro messages
    induction messages with
    | nil => simp [bubblesFrom]
    | cons m rest ih =>
      intro page
      have counted : page.nodes + 1 + rest.length = page.nodes + (rest.length + 1) := by omega
      rw [List.foldl_cons, ih]
      simp [makeBubble, bubblesFrom, counted]
  unfold renderAll
  rw [appended]
  rfl

/-! ### Idle and busy -/

structure Idle (page : Page) : Prop where
  sending : page.sending = false
  current : page.currentAbort = none
  calls : page.calls = []
  timers : page.timers.pending = []

/-- This call is in flight, and nothing else. -/
structure Busy (page : Page) (call : Call) : Prop where
  sending : page.sending = true
  current : page.currentAbort = some call.controller
  calls : page.calls = [call]
  timers : page.timers.pending = if call.timedOut then [] else [call.timer]

/-- No more than one request is in flight. -/
def Single (page : Page) : Prop := Idle page ∨ ∃ call, Busy page call

theorem Busy.not_idle (busy : Busy page call) : ¬ Idle page := by
  intro idle
  cases busy.sending.symm.trans idle.sending

theorem Busy.found (busy : Busy page call) {controller : Nat} {found : Call}
    (same : page.call controller = some found) : found = call ∧ controller = call.controller := by
  unfold Page.call at same
  rw [busy.calls, List.find?_singleton] at same
  split_ifs at same with named
  cases same
  exact ⟨rfl, (of_decide_eq_true named).symm⟩

theorem Idle.found (idle : Idle page) {controller : Nat} : page.call controller = none := by
  unfold Page.call
  rw [idle.calls]
  rfl

structure Aside (page page' : Page) : Prop where
  same : page' = { page with
    storedModel := page'.storedModel
    showUncensored := page'.showUncensored
    modelInfo := page'.modelInfo
    select := page'.select
    loads := page'.loads
    nextLoad := page'.nextLoad }

def quiet : Event → Bool
  | .send _ => true
  | .choose _ => true
  | .refresh => true
  | .toggle => true
  | .pulled _ => true
  | .loaded _ _ => true
  | _ => false

inductive Turn (browser : Browser) (page : Page) : Event → Page → Prop where
  | ask (input : Text) (idle : Idle page) (some : trim input ≠ []) (chosen : page.select.value ≠ [])
      (enabled : page.select.disabled = false)
      (ready : page.modelInfo.lookup page.select.value ≠ Option.some false) :
      Turn browser page (.send input) (request browser page (trim input))
  | stop (input : Text) (call : Call) (busy : Busy page call) :
      Turn browser page (.send input) (stopCurrentRequest page)
  | clear (confirmed : Bool) : Turn browser page (.newChat confirmed) (newChat browser page confirmed)
  | respond (call : Call) (busy : Busy page call) (awaits : call.awaiting = .response) (status : Nat)
      (body : Bool) :
      Turn browser page (.responded call.controller status body) (respond page call status body)
  | chunk (call : Call) (busy : Busy page call) (decoder : Decoder) (buffer : Text) (chat : Chat)
      (awaits : call.awaiting = .chunk decoder buffer chat) (value : Bytes) :
      Turn browser page (.chunk call.controller value) (takeChunk browser page call decoder buffer chat value)
  | close (call : Call) (busy : Busy page call) (decoder : Decoder) (buffer : Text) (chat : Chat)
      (awaits : call.awaiting = .chunk decoder buffer chat) :
      Turn browser page (.closed call.controller) (endBody browser page call decoder buffer chat)
  | reject (call : Call) (busy : Busy page call) (e : Failure) :
      Turn browser page (.rejected call.controller e) (fail page call e)
  | expire (call : Call) (busy : Busy page call) (armed : call.timedOut = false) :
      Turn browser page (.expired call.timer) (expire page call.timer)
  | aside (e : Event) (silent : quiet e = true) (page' : Page) (aside : Aside page page') :
      Turn browser page e page'
  | reload (page' : Page) (again : opened page.stored page.storedModel page.showUncensored = some page') :
      Turn browser page .reload page'

theorem aside_refl (page : Page) : Aside page page := ⟨rfl⟩

theorem aside_finishLoad (page : Page) (load : Load) (answer : LoadAnswer) :
    Aside page (finishLoad page load answer) := by
  constructor
  unfold finishLoad
  cases answer <;> cases load.pulled <;> rfl

theorem step_turn (single : Single page) {e : Event} (stepped : step browser page e = some page') :
    Turn browser page e page' := by
  have called : ∀ {controller : Nat} {use : Call → Option Page},
      (page.call controller).bind use = some page' →
        ∃ call, Busy page call ∧ controller = call.controller ∧ use call = some page' := by
    intro controller use some
    obtain ⟨found, there, used⟩ := Option.bind_eq_some_iff.1 some
    obtain idle | ⟨call, busy⟩ := single
    · cases idle.found.symm.trans there
    · obtain ⟨rfl, same⟩ := busy.found there
      exact ⟨found, busy, same, used⟩
  cases e with
  | send input =>
    cases stepped
    unfold send
    obtain idle | ⟨call, busy⟩ := single
    · rw [if_neg (by simp [idle.sending])]
      split_ifs with blank unchosen unpulled
      · exact .aside _ rfl _ (aside_refl page)
      · exact .aside _ rfl _ (aside_refl page)
      · exact .aside _ rfl _ (aside_refl page)
      · rw [not_or, Bool.not_eq_true] at unchosen
        exact .ask input idle blank unchosen.1 unchosen.2 unpulled
    · rw [if_pos busy.sending]
      exact .stop input call busy
  | newChat confirmed =>
    cases stepped
    exact .clear confirmed
  | responded controller status body =>
    obtain ⟨call, busy, rfl, used⟩ := called stepped
    cases awaits : call.awaiting with
    | response =>
      rw [awaits] at used
      cases used
      exact .respond call busy awaits status body
    | chunk => simp [awaits] at used
  | chunk controller value =>
    obtain ⟨call, busy, rfl, used⟩ := called stepped
    cases awaits : call.awaiting with
    | response => simp [awaits] at used
    | chunk decoder buffer chat =>
      rw [awaits] at used
      cases used
      exact .chunk call busy decoder buffer chat awaits value
  | closed controller =>
    obtain ⟨call, busy, rfl, used⟩ := called stepped
    cases awaits : call.awaiting with
    | response => simp [awaits] at used
    | chunk decoder buffer chat =>
      rw [awaits] at used
      cases used
      exact .close call busy decoder buffer chat awaits
  | rejected controller e =>
    obtain ⟨call, busy, rfl, used⟩ := called stepped
    cases e with
    | abort =>
      dsimp only at used
      split_ifs at used
      cases used
      exact .reject call busy .abort
    | other message =>
      cases used
      exact .reject call busy (.other message)
  | expired timer =>
    change (if timer ∈ page.timers.pending then _ else _) = some page' at stepped
    split_ifs at stepped with armed
    cases stepped
    obtain idle | ⟨call, busy⟩ := single
    · simp [idle.timers] at armed
    · rw [busy.timers] at armed
      split_ifs at armed with late
      · cases armed
      · rw [List.mem_singleton.1 armed]
        exact .expire call busy (Bool.not_eq_true _ ▸ late)
  | choose model =>
    change (if _ then _ else _) = some page' at stepped
    split_ifs at stepped
    cases stepped
    exact .aside _ rfl _ ⟨rfl⟩
  | refresh =>
    cases stepped
    exact .aside _ rfl _ ⟨rfl⟩
  | toggle =>
    cases stepped
    exact .aside _ rfl _ ⟨rfl⟩
  | pulled model =>
    cases stepped
    exact .aside _ rfl _ ⟨rfl⟩
  | loaded id answer =>
    obtain ⟨load, -, rfl⟩ := Option.map_eq_some_iff.1 stepped
    exact .aside _ rfl _ (aside_finishLoad page load answer)
  | reload => exact .reload page' stepped

/-! ### One request at a time -/

theorem Single.aside (single : Single page) (aside : Aside page page') : Single page' := by
  rw [aside.same]
  obtain idle | ⟨call, busy⟩ := single
  · exact .inl ⟨idle.sending, idle.current, idle.calls, idle.timers⟩
  · exact .inr ⟨call, busy.sending, busy.current, busy.calls, busy.timers⟩

theorem idle_leave (busy : Busy page call) : Idle (leave page call) := by
  refine ⟨rfl, rfl, ?_, ?_⟩
  · change page.calls.filter _ = []
    simp [busy.calls]
  · apply Timers.clear_only
    intro t member
    rw [busy.timers] at member
    split_ifs at member
    · cases member
    · exact List.mem_singleton.1 member

theorem busy_showIn (busy : Busy page call) (node : Nat) (content : Text) (error : Bool) :
    Busy (showIn page node content error) call :=
  ⟨busy.sending, busy.current, busy.calls, busy.timers⟩

theorem busy_update (busy : Busy page call) {later : Call} (controller : later.controller = call.controller)
    (timer : later.timer = call.timer) (timedOut : later.timedOut = call.timedOut) :
    Busy (update page later) later := by
  refine ⟨busy.sending, controller ▸ busy.current, ?_, ?_⟩
  · change page.calls.map _ = [later]
    simp [busy.calls, controller]
  · rw [timer, timedOut]
    exact busy.timers

theorem idle_fail (busy : Busy page call) (e : Failure) : Idle (fail page call e) :=
  idle_leave (busy_showIn busy _ _ _)

theorem idle_reply (busy : Busy page call) (chat : Chat) : Idle (reply browser page call chat) := by
  unfold reply
  apply idle_leave
  split_ifs
  · exact busy_showIn busy _ _ _
  · exact ⟨busy.sending, busy.current, busy.calls, busy.timers⟩

theorem takeChunk_cases (browser : Browser) (page : Page) (call : Call) (decoder : Decoder) (buffer : Text)
    (chat : Chat) (value : Bytes) :
    (∃ left, (cut (buffer ++ (decode decoder value).2)).1.forM (onLine chatObject) chat =
        .error .typeError left ∧
      takeChunk browser page call decoder buffer chat value = fail page call (.other browser.typeError)) ∨
    ∃ later, (cut (buffer ++ (decode decoder value).2)).1.forM (onLine chatObject) chat = .ok () later ∧
      takeChunk browser page call decoder buffer chat value =
        update (showIn page call.bubble later.assistantContent later.sawError) { call with
          awaiting := .chunk (decode decoder value).1 (cut (buffer ++ (decode decoder value).2)).2 later
          received := call.received ++ [value] } := by
  unfold takeChunk
  dsimp only
  cases (cut (buffer ++ (decode decoder value).2)).1.forM (onLine chatObject) chat with
  | error e left =>
    cases e
    exact .inl ⟨left, rfl, rfl⟩
  | ok _ later => exact .inr ⟨later, rfl, rfl⟩

theorem endBody_cases (browser : Browser) (page : Page) (call : Call) (decoder : Decoder) (buffer : Text)
    (chat : Chat) :
    (∃ message, endBody browser page call decoder buffer chat = fail page call (.other message) ∧
      ∀ later, onLine chatObject (buffer ++ flush decoder) chat = .ok () later →
        later.assistantContent = [] ∧ later.sawError = false) ∨
    ∃ later, onLine chatObject (buffer ++ flush decoder) chat = .ok () later ∧
      ¬ (later.assistantContent = [] ∧ later.sawError = false) ∧
      endBody browser page call decoder buffer chat = reply browser page call later := by
  unfold endBody
  cases ended : onLine chatObject (buffer ++ flush decoder) chat with
  | error e left =>
    cases e
    exact .inl ⟨_, rfl, fun later other => by cases other⟩
  | ok _ later =>
    dsimp only
    split_ifs with empty
    · refine .inl ⟨_, rfl, fun other same => ?_⟩
      cases same
      exact empty
    · exact .inr ⟨later, rfl, empty, rfl⟩

theorem single_opened {stored storedModel : Option Text} {showUncensored : Bool}
    (open_ : opened stored storedModel showUncensored = some page) : Idle page := by
  obtain ⟨history, -, rfl⟩ := Option.map_eq_some_iff.1 open_
  rw [renderAll_eq]
  exact ⟨rfl, rfl, rfl, rfl⟩

/-- The call that a question makes. -/
def asked (page : Page) (text : Text) : Call :=
  { controller := page.controllers, timer := page.timers.next
    bubble := page.nodes + (page.history.length + 1)
    request := ⟨page.select.value, page.history ++ [⟨.user, text⟩]⟩ }

theorem request_eq (page : Page) (text : Text) : request browser page text =
    { saveHistory browser { page with history := page.history ++ [⟨.user, text⟩] } with
      sending := true
      currentAbort := some page.controllers
      controllers := page.controllers + 1
      timers := page.timers.set.2
      calls := page.calls ++ [asked page text]
      nodes := page.nodes + (page.history.length + 1) + 1
      shown := bubblesFrom page.nodes (page.history ++ [⟨.user, text⟩]) ++
        [⟨page.nodes + (page.history.length + 1), .assistant, [], false⟩] } := by
  unfold request asked
  simp [renderAll_eq, makeBubble, saveHistory]

theorem busy_request (idle : Idle page) (text : Text) :
    Busy (request browser page text) (asked page text) := by
  rw [request_eq]
  refine ⟨rfl, rfl, ?_, ?_⟩
  · change page.calls ++ _ = _
    rw [idle.calls, List.nil_append]
  · exact Timers.set_only idle.timers

theorem busy_expire (busy : Busy page call) (armed : call.timedOut = false) :
    Busy (expire page call.timer) { call with timedOut := true } := by
  refine ⟨busy.sending, busy.current, ?_, ?_⟩
  · change page.calls.map _ = _
    simp [busy.calls]
  · change (page.timers.clear call.timer).pending = []
    apply Timers.clear_only
    intro t member
    rw [busy.timers, armed] at member
    exact List.mem_singleton.1 member

theorem single_step (single : Single page) {e : Event} (stepped : step browser page e = some page') :
    Single page' := by
  cases step_turn single stepped with
  | ask input idle => exact .inr ⟨_, busy_request idle _⟩
  | stop input call busy => exact .inr ⟨call, busy.sending, busy.current, busy.calls, busy.timers⟩
  | clear confirmed =>
    unfold newChat
    split_ifs
    · exact single
    · rw [renderAll_eq]
      obtain idle | ⟨call, busy⟩ := single
      · exact .inl ⟨idle.sending, idle.current, idle.calls, idle.timers⟩
      · exact .inr ⟨call, busy.sending, busy.current, busy.calls, busy.timers⟩
  | respond call busy awaits status body =>
    unfold respond
    split_ifs
    · exact .inl (idle_fail busy _)
    · exact .inr ⟨_, busy_update busy rfl rfl rfl⟩
    · exact .inl (idle_fail busy _)
  | chunk call busy decoder buffer chat awaits value =>
    obtain ⟨left, -, failed⟩ | ⟨later, -, waits⟩ :=
      takeChunk_cases browser page call decoder buffer chat value
    · rw [failed]
      exact .inl (idle_fail busy _)
    · rw [waits]
      exact .inr ⟨_, busy_update (busy_showIn busy _ _ _) rfl rfl rfl⟩
  | close call busy decoder buffer chat =>
    obtain ⟨message, failed, -⟩ | ⟨later, -, -, replied⟩ :=
      endBody_cases browser page call decoder buffer chat
    · rw [failed]
      exact .inl (idle_fail busy _)
    · rw [replied]
      exact .inl (idle_reply busy later)
  | reject call busy e => exact .inl (idle_fail busy e)
  | expire call busy armed => exact .inr ⟨_, busy_expire busy armed⟩
  | aside e silent page' aside => exact single.aside aside
  | reload page' again => exact .inl (single_opened again)

/-- A page that some events lead to, from when it was opened. -/
def Reached (browser : Browser) (page : Page) : Prop :=
  ∃ stored storedModel showUncensored first events,
    opened stored storedModel showUncensored = some first ∧ run (step browser) first events = some page

theorem Reached.single (reached : Reached browser page) : Single page := by
  obtain ⟨_, _, _, first, events, open_, ran⟩ := reached
  exact run_invariant _ (fun _ _ _ single stepped => single_step single stepped)
    (.inl (single_opened open_)) ran

theorem Reached.step (reached : Reached browser page) {e : Event} (stepped : step browser page e = some page') :
    Reached browser page' := by
  obtain ⟨stored, storedModel, showUncensored, first, events, open_, ran⟩ := reached
  refine ⟨stored, storedModel, showUncensored, first, events ++ [e], open_, ?_⟩
  rw [run_append, ran, Option.bind_some, run_cons, stepped]
  rfl

structure Numbered (page : Page) : Prop where
  aborted : ∀ c ∈ page.aborted, c < page.controllers
  calls : ∀ call ∈ page.calls, call.controller < page.controllers

theorem Numbered.leave (numbered : Numbered page) (call : Call) : Numbered (leave page call) :=
  ⟨numbered.aborted, fun other member => numbered.calls other (List.mem_of_mem_filter member)⟩

theorem Numbered.update (numbered : Numbered page) (busy : Busy page call) {later : Call}
    (controller : later.controller = call.controller) : Numbered (update page later) := by
  refine ⟨numbered.aborted, fun other member => ?_⟩
  obtain ⟨old, there, rfl⟩ := List.mem_map.1 member
  have known := numbered.calls call (by simp [busy.calls])
  split_ifs
  · exact controller ▸ known
  · exact numbered.calls old there

theorem Numbered.showIn (numbered : Numbered page) (node : Nat) (content : Text) (error : Bool) :
    Numbered (showIn page node content error) := ⟨numbered.aborted, numbered.calls⟩

theorem Numbered.fail (numbered : Numbered page) (call : Call) (e : Failure) : Numbered (fail page call e) :=
  (numbered.showIn _ _ _).leave call

theorem Numbered.reply (numbered : Numbered page) (call : Call) (chat : Chat) :
    Numbered (reply browser page call chat) := by
  unfold ChatSession.reply
  apply Numbered.leave
  split_ifs <;> exact ⟨numbered.aborted, numbered.calls⟩

theorem Numbered.stop (numbered : Numbered page) (busy : Busy page call) :
    Numbered (stopCurrentRequest page) := by
  refine ⟨fun c member => ?_, numbered.calls⟩
  obtain old | new := List.mem_append.1 member
  · exact numbered.aborted c old
  · rw [busy.current] at new
    exact List.mem_singleton.1 new ▸ numbered.calls call (by simp [busy.calls])

theorem numbered_opened {stored storedModel : Option Text} {showUncensored : Bool}
    (open_ : opened stored storedModel showUncensored = some page) : Numbered page := by
  obtain ⟨history, -, rfl⟩ := Option.map_eq_some_iff.1 open_
  rw [renderAll_eq]
  exact ⟨by simp [startLoad], by simp [startLoad]⟩

theorem numbered_step (single : Single page) (numbered : Numbered page) {e : Event}
    (stepped : step browser page e = some page') : Numbered page' := by
  cases step_turn single stepped with
  | ask input idle =>
    rw [request_eq]
    constructor
    · exact fun c member => Nat.lt_succ_of_lt (numbered.aborted c member)
    · intro call member
      change call ∈ page.calls ++ _ at member
      rw [idle.calls, List.nil_append, List.mem_singleton] at member
      subst member
      exact Nat.lt_succ_self page.controllers
  | stop input call busy => exact numbered.stop busy
  | clear confirmed =>
    unfold newChat
    split_ifs
    · exact numbered
    · rw [renderAll_eq]
      exact ⟨numbered.aborted, numbered.calls⟩
  | respond call busy awaits status body =>
    unfold respond
    split_ifs
    · exact numbered.fail call _
    · exact numbered.update busy rfl
    · exact numbered.fail call _
  | chunk call busy decoder buffer chat awaits value =>
    obtain ⟨left, -, failed⟩ | ⟨later, -, waits⟩ :=
      takeChunk_cases browser page call decoder buffer chat value
    · rw [failed]
      exact numbered.fail call _
    · rw [waits]
      exact (numbered.showIn _ _ _).update (busy_showIn busy _ _ _) rfl
  | close call busy decoder buffer chat =>
    obtain ⟨message, failed, -⟩ | ⟨later, -, -, replied⟩ :=
      endBody_cases browser page call decoder buffer chat
    · rw [failed]
      exact numbered.fail call _
    · rw [replied]
      exact numbered.reply call later
  | reject call busy e => exact numbered.fail call e
  | expire call busy armed =>
    have marked : Numbered { page with
        timers := page.timers.clear call.timer
        calls := page.calls.map fun other =>
          if other.timer = call.timer then { other with timedOut := true } else other } := by
      refine ⟨numbered.aborted, fun other member => ?_⟩
      obtain ⟨old, there, rfl⟩ := List.mem_map.1 member
      split_ifs <;> exact numbered.calls old there
    refine ⟨fun c member => ?_, marked.calls⟩
    obtain old | new := List.mem_append.1 member
    · exact numbered.aborted c old
    · change c ∈ page.currentAbort.toList at new
      rw [busy.current] at new
      exact List.mem_singleton.1 new ▸ numbered.calls call (by simp [busy.calls])
  | aside e silent page' aside =>
    rw [aside.same]
    exact ⟨numbered.aborted, numbered.calls⟩
  | reload page' again => exact numbered_opened again

theorem Reached.numbered (reached : Reached browser page) : Numbered page := by
  obtain ⟨_, _, _, first, events, open_, ran⟩ := reached
  have both : Single page ∧ Numbered page := by
    refine run_invariant (fun page => Single page ∧ Numbered page) ?_
      ⟨.inl (single_opened open_), numbered_opened open_⟩ ran
    intro s e s' holds stepped
    exact ⟨single_step holds.1 stepped, numbered_step holds.1 holds.2 stepped⟩
  exact both.2

/-! ### What is in flight, and what is aborted -/

structure OneRequest (page : Page) : Prop where
  few : page.calls.length ≤ 1
  sending : page.sending = !page.calls.isEmpty
  current : page.currentAbort = page.calls.head?.map Call.controller
  timers : page.timers.pending = (page.calls.filter fun call => !call.timedOut).map Call.timer

/-- Nothing is aborted but the request in flight, when it is stopped or when its own timer expires. -/
def AbortsOwn (page : Page) (e : Event) (page' : Page) : Prop :=
  page'.aborted = page.aborted ∨ ∃ call, page.calls = [call] ∧
    page'.aborted = page.aborted ++ [call.controller] ∧ ((∃ input, e = .send input) ∨ e = .expired call.timer)

/-- A request that was not in flight before is made by a page that waits for none, and is not aborted. -/
def BeginsAlone (page page' : Page) : Prop :=
  ∀ call ∈ page'.calls, call.controller ∈ page.calls.map Call.controller ∨
    page.calls = [] ∧ call.controller ∉ page'.aborted

theorem oneRequest_of_single (single : Single page) : OneRequest page := by
  obtain idle | ⟨call, busy⟩ := single
  · have none := idle.calls
    refine ⟨by simp [none], ?_, ?_, ?_⟩
    · simp [none, idle.sending]
    · simp [none, idle.current]
    · simp [none, idle.timers]
  · have one := busy.calls
    refine ⟨by simp [one], ?_, ?_, ?_⟩
    · simp [one, busy.sending]
    · simp [one, busy.current]
    · rw [one, busy.timers]
      cases late : call.timedOut <;> simp [late]

theorem newChat_calls (page : Page) (confirmed : Bool) :
    (newChat browser page confirmed).calls = page.calls ∧
      (newChat browser page confirmed).aborted = page.aborted := by
  unfold newChat
  split_ifs
  · exact ⟨rfl, rfl⟩
  · rw [renderAll_eq]
    exact ⟨rfl, rfl⟩

theorem reply_aborted (page : Page) (call : Call) (chat : Chat) :
    (reply browser page call chat).aborted = page.aborted := by
  unfold reply
  split_ifs <;> rfl

theorem aborts_own (single : Single page) {e : Event} (stepped : step browser page e = some page')
    (stays : e ≠ .reload) : AbortsOwn page e page' := by
  cases step_turn single stepped with
  | ask input idle =>
    left
    rw [request_eq]
    rfl
  | stop input call busy =>
    refine .inr ⟨call, busy.calls, ?_, .inl ⟨input, rfl⟩⟩
    unfold stopCurrentRequest
    rw [busy.current]
    rfl
  | clear confirmed => exact .inl (newChat_calls page confirmed).2
  | respond call busy awaits status body =>
    left
    unfold respond
    split_ifs <;> rfl
  | chunk call busy decoder buffer chat awaits value =>
    left
    obtain ⟨left, -, failed⟩ | ⟨later, -, waits⟩ :=
      takeChunk_cases browser page call decoder buffer chat value
    · rw [failed]
      rfl
    · rw [waits]
      rfl
  | close call busy decoder buffer chat =>
    left
    obtain ⟨message, failed, -⟩ | ⟨later, -, -, replied⟩ :=
      endBody_cases browser page call decoder buffer chat
    · rw [failed]
      rfl
    · rw [replied, reply_aborted]
  | reject call busy e => exact .inl rfl
  | expire call busy armed =>
    refine .inr ⟨call, busy.calls, ?_, .inr rfl⟩
    change page.aborted ++ page.currentAbort.toList = _
    rw [busy.current]
    rfl
  | aside e silent page' aside =>
    left
    rw [aside.same]
  | reload page' again => exact absurd rfl stays

theorem begins_alone (single : Single page) (numbered : Numbered page) {e : Event}
    (stepped : step browser page e = some page') : BeginsAlone page page' := by
  intro call member
  cases step_turn single stepped with
  | ask input idle =>
    right
    rw [request_eq] at member ⊢
    change call ∈ page.calls ++ _ at member
    rw [idle.calls, List.nil_append, List.mem_singleton] at member
    refine ⟨idle.calls, fun early => ?_⟩
    rw [member] at early
    exact Nat.lt_irrefl _ (numbered.aborted page.controllers early)
  | stop input call busy => exact .inl (List.mem_map_of_mem member)
  | clear confirmed =>
    rw [(newChat_calls page confirmed).1] at member
    exact .inl (List.mem_map_of_mem member)
  | respond old busy awaits status body =>
    left
    unfold respond at member
    split_ifs at member
    · exact List.mem_map_of_mem (List.mem_of_mem_filter member)
    · obtain ⟨other, there, rfl⟩ := List.mem_map.1 member
      rw [busy.calls, List.mem_singleton] at there
      simp [busy.calls, there]
    · exact List.mem_map_of_mem (List.mem_of_mem_filter member)
  | chunk old busy decoder buffer chat awaits value =>
    left
    obtain ⟨left, -, failed⟩ | ⟨later, -, waits⟩ :=
      takeChunk_cases browser page old decoder buffer chat value
    · rw [failed] at member
      exact List.mem_map_of_mem (List.mem_of_mem_filter member)
    · rw [waits] at member
      obtain ⟨other, there, rfl⟩ := List.mem_map.1 member
      change other ∈ page.calls at there
      rw [busy.calls, List.mem_singleton] at there
      simp [busy.calls, there]
  | close old busy decoder buffer chat =>
    have idle : Idle (endBody browser page old decoder buffer chat) := by
      obtain ⟨message, failed, -⟩ | ⟨later, -, -, replied⟩ :=
        endBody_cases browser page old decoder buffer chat
      · exact failed ▸ idle_fail busy _
      · exact replied ▸ idle_reply busy later
    simp [idle.calls] at member
  | reject old busy e =>
    rw [(idle_fail busy e).calls] at member
    cases member
  | expire old busy armed =>
    left
    obtain ⟨other, there, rfl⟩ := List.mem_map.1 member
    rw [busy.calls, List.mem_singleton] at there
    simp [busy.calls, there]
  | aside e silent page' aside =>
    rw [aside.same] at member
    exact .inl (List.mem_map_of_mem member)
  | reload page' again => simp [(single_opened again).calls] at member

/-- The safety of the page in every run. -/
theorem one_request (browser : Browser) {stored storedModel : Option Text} {showUncensored : Bool}
    {first page : Page} {events : List Event} (open_ : opened stored storedModel showUncensored = some first)
    (ran : run (step browser) first events = some page) :
    OneRequest page ∧ ∀ e page', step browser page e = some page' →
      BeginsAlone page page' ∧ (e ≠ .reload → AbortsOwn page e page') := by
  have reached : Reached browser page := ⟨stored, storedModel, showUncensored, first, events, open_, ran⟩
  refine ⟨oneRequest_of_single reached.single, fun e page' stepped => ?_⟩
  exact ⟨begins_alone reached.single reached.numbered stepped, aborts_own reached.single stepped⟩

def steady : Browser := ⟨fun _ => true, ChatPage.lit "TypeError"⟩

def firstPage : Page := (opened none none false).get rfl

theorem firstPage_eq : opened none none false = some firstPage := (Option.some_get _).symm

def oneModel : Listing := ⟨[ChatPage.lit "m"], [], ChatPage.lit "m"⟩

def greeting : List Event := [.loaded 0 (.listed oneModel), .send (ChatPage.lit " hi ")]

def greeted : Page := (run (step steady) firstPage greeting).get (by decide +kernel)

theorem greeted_eq : run (step steady) firstPage greeting = some greeted := (Option.some_get _).symm

theorem one_request_greeted : OneRequest greeted ∧ ∀ e page', step steady greeted e = some page' →
    BeginsAlone greeted page' ∧ (e ≠ .reload → AbortsOwn greeted e page') :=
  one_request steady firstPage_eq greeted_eq

end CppCoder.ChatTurns
