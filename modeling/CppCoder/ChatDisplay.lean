import CppCoder.ChatReplies

/-! What the chat page shows in every run: the messages of the history, and one bubble more while a reply
comes in or after one failed. Only a reply that comes in after the chat was cleared is not shown. -/

namespace CppCoder.ChatDisplay
open Support Utf8 JsonText TextDecoder ChatSession ChatTurns Machine
open ChatPage (Chat lit)
open ChatReplies (newChat_controllers reply_controllers received_run answering answeredPage answeredPage_eq)

variable {browser : Browser} {page page' : Page} {call : Call} {cleared cleared' : Prop}

def Bubble.core (b : Bubble) : Message × Bool := (⟨b.role, b.content⟩, b.error)

/-- The messages as bubbles. -/
def said (history : List Message) : List (Message × Bool) := history.map (·, false)

/-- The bubbles show the history, and behind it perhaps an error. -/
def ShowsAll (history : List Message) (shown : List Bubble) : Prop :=
  shown.map Bubble.core = said history ∨
    ∃ content, shown.map Bubble.core = said history ++ [(⟨.assistant, content⟩, true)]

/-- The reply that comes in has the last bubble. -/
structure ShowsReply (history : List Message) (shown : List Bubble) (node : Nat) : Prop where
  split : ∃ before content error, shown = before ++ [⟨node, .assistant, content, error⟩] ∧
    before.map Bubble.core = said history ∧ ∀ b ∈ before, b.node ≠ node

/-- A page that waits for no reply. The last reply is not shown if the chat was cleared before it came in. -/
def RestShown (cleared : Prop) (page : Page) : Prop :=
  ShowsAll page.history page.shown ∨
    cleared ∧ page.shown = [] ∧ ∃ content, page.history = [⟨.assistant, content⟩]

/-- A page that waits for this reply. -/
def ReplyShown (cleared : Prop) (page : Page) (call : Call) : Prop :=
  ShowsReply page.history page.shown call.bubble ∨ cleared ∧ page.shown = [] ∧ page.history = []

inductive Display (cleared : Prop) (page : Page) : Prop where
  | rest (idle : Idle page) (shown : RestShown cleared page)
  | reply (call : Call) (busy : Busy page call) (shown : ReplyShown cleared page call)

theorem Display.single (display : Display cleared page) : Single page := by
  cases display with
  | rest idle => exact .inl idle
  | reply call busy => exact .inr ⟨call, busy⟩

theorem bubblesFrom_core (node : Nat) (history : List Message) :
    (bubblesFrom node history).map Bubble.core = said history := by
  induction history generalizing node with
  | nil => rfl
  | cons m rest ih =>
    rw [bubblesFrom, List.map_cons, ih]
    rfl

theorem bubblesFrom_node (node : Nat) (history : List Message) :
    ∀ b ∈ bubblesFrom node history, b.node < node + history.length := by
  induction history generalizing node with
  | nil => simp [bubblesFrom]
  | cons m rest ih =>
    intro b member
    rw [bubblesFrom, List.mem_cons] at member
    obtain rfl | later := member
    · simp
    · have bound := ih (node + 1) b later
      rw [List.length_cons]
      omega

/-! ### Bubbles that change -/

/-- What `showIn` makes of the bubbles. -/
def changed (shown : List Bubble) (node : Nat) (content : Text) (error : Bool) : List Bubble :=
  shown.map fun b => if b.node = node then { b with content, error } else b

theorem ShowsReply.changed {history : List Message} {shown : List Bubble} {node : Nat}
    (shows : ShowsReply history shown node) (content : Text) (error : Bool) :
    ∃ before, changed shown node content error = before ++ [⟨node, .assistant, content, error⟩] ∧
      before.map Bubble.core = said history ∧ ∀ b ∈ before, b.node ≠ node := by
  obtain ⟨before, old, failed, rfl, core, apart⟩ := shows.split
  refine ⟨before, ?_, core, apart⟩
  unfold ChatDisplay.changed
  rw [List.map_append, List.map_singleton, if_pos rfl]
  congr 1
  rw [List.map_congr_left (g := id), List.map_id]
  intro b member
  rw [if_neg (apart b member)]
  rfl

theorem replyShown_showIn (shown : ReplyShown cleared page call) (content : Text) (error : Bool) :
    ReplyShown cleared (showIn page call.bubble content error) call := by
  obtain shows | ⟨clears, none, blank⟩ := shown
  · obtain ⟨before, split, core, apart⟩ := shows.changed content error
    exact .inl ⟨before, content, error, split, core, apart⟩
  · refine .inr ⟨clears, ?_, blank⟩
    change page.shown.map _ = []
    rw [none, List.map_nil]

theorem restShown_fail (shown : ReplyShown cleared page call) (e : Failure) :
    RestShown cleared (fail page call e) := by
  left
  obtain shows | ⟨-, none, blank⟩ := shown
  · obtain ⟨before, split, core, -⟩ := shows.changed (e.text call.timedOut) true
    right
    refine ⟨e.text call.timedOut, ?_⟩
    change (changed page.shown call.bubble (e.text call.timedOut) true).map Bubble.core = said page.history ++ _
    rw [split, List.map_append, core]
    rfl
  · left
    change (page.shown.map _).map Bubble.core = said page.history
    rw [none, blank]
    rfl

theorem restShown_reply (shown : ReplyShown cleared page call) (chat : Chat) :
    RestShown cleared (reply browser page call chat) := by
  unfold reply
  cases failed : chat.sawError with
  | true =>
    left
    obtain shows | ⟨-, none, blank⟩ := shown
    · obtain ⟨before, split, core, -⟩ := shows.changed chat.assistantContent true
      right
      refine ⟨chat.assistantContent, ?_⟩
      change (changed page.shown call.bubble chat.assistantContent true).map Bubble.core = said page.history ++ _
      rw [split, List.map_append, core]
      rfl
    · left
      change (page.shown.map _).map Bubble.core = said page.history
      rw [none, blank]
      rfl
  | false =>
    obtain shows | ⟨clears, none, blank⟩ := shown
    · obtain ⟨before, split, core, -⟩ := shows.changed chat.assistantContent false
      refine .inl (.inl ?_)
      change (changed page.shown call.bubble chat.assistantContent false).map Bubble.core =
        said (page.history ++ [⟨.assistant, chat.assistantContent⟩])
      rw [split, List.map_append, core]
      unfold said
      rw [List.map_append]
      rfl
    · right
      refine ⟨clears, ?_, chat.assistantContent, ?_⟩
      · change page.shown.map _ = []
        rw [none, List.map_nil]
      · change page.history ++ _ = _
        rw [blank, List.nil_append]

theorem newChat_shown (browser : Browser) (page : Page) (confirmed : Bool) :
    newChat browser page confirmed = page ∨
      (newChat browser page confirmed).shown = [] ∧ (newChat browser page confirmed).history = [] := by
  unfold newChat
  split_ifs
  · exact .inl rfl
  · rw [renderAll_eq]
    exact .inr ⟨rfl, rfl⟩

theorem request_shown (page : Page) (text : Text) :
    ReplyShown cleared (request browser page text) (asked page text) := by
  rw [request_eq]
  refine .inl ⟨bubblesFrom page.nodes (page.history ++ [⟨.user, text⟩]), [], false, rfl,
    bubblesFrom_core _ _, ?_⟩
  intro b member
  have bound := bubblesFrom_node _ _ b member
  rw [List.length_append, List.length_singleton] at bound
  exact Nat.ne_of_lt bound

theorem display_opened {stored storedModel : Option Text} {showUncensored : Bool}
    (open_ : opened stored storedModel showUncensored = some page) : Display cleared page := by
  refine .rest (single_opened open_) (.inl (.inl ?_))
  obtain ⟨history, -, rfl⟩ := Option.map_eq_some_iff.1 open_
  rw [renderAll_eq]
  exact bubblesFrom_core _ _

theorem Display.replyShown (display : Display cleared page) (busy : Busy page call) :
    ReplyShown cleared page call := by
  cases display with
  | rest idle => exact absurd idle busy.not_idle
  | reply other there shown =>
    have same : [other] = [call] := there.calls.symm.trans busy.calls
    cases same
    exact shown

theorem Display.weaken (display : Display cleared page) (weaker : cleared → cleared') : Display cleared' page := by
  cases display with
  | rest idle shown => exact .rest idle (shown.imp_right fun unshown => ⟨weaker unshown.1, unshown.2⟩)
  | reply call busy shown =>
    exact .reply call busy (shown.imp_right fun unshown => ⟨weaker unshown.1, unshown.2⟩)

theorem Display.alike (display : Display cleared page) (shown : page'.shown = page.shown)
    (history : page'.history = page.history) (idle : Idle page → Idle page')
    (busy : ∀ call, Busy page call → ∃ later, Busy page' later ∧ later.bubble = call.bubble) :
    Display cleared page' := by
  cases display with
  | rest rests shows =>
    refine .rest (idle rests) ?_
    unfold RestShown
    rwa [shown, history]
  | reply call there shows =>
    obtain ⟨later, busy, bubble⟩ := busy call there
    refine .reply later busy ?_
    unfold ReplyShown
    rwa [shown, history, bubble]

/-- The chat stays cleared until another question is asked or the page is opened again; it is cleared while a
reply comes in. -/
theorem display_step (display : Display cleared page) {e : Event} (stepped : step browser page e = some page')
    (stays : page'.controllers = page.controllers → e ≠ .reload → cleared → cleared')
    (clears : ∀ confirmed call, e = .newChat confirmed → Busy page call → cleared') : Display cleared' page' := by
  have fails : ∀ {call : Call} (e : Failure), Busy page call → Display cleared (fail page call e) := by
    intro call e busy
    exact .rest (idle_fail busy e) (restShown_fail (display.replyShown busy) e)
  cases step_turn display.single stepped with
  | ask input idle => exact .reply _ (busy_request idle _) (request_shown page _)
  | stop input call busy =>
    have alike : Display cleared (stopCurrentRequest page) := by
      refine display.alike rfl rfl (fun idle => absurd idle busy.not_idle) fun other there => ?_
      exact ⟨other, ⟨there.sending, there.current, there.calls, there.timers⟩, rfl⟩
    exact alike.weaken (stays rfl nofun)
  | clear confirmed =>
    obtain same | ⟨shown, history⟩ := newChat_shown browser page confirmed
    · have kept := stays (newChat_controllers page confirmed) nofun
      rw [same]
      exact display.weaken kept
    · obtain idle | ⟨call, busy⟩ := single_step display.single stepped
      · refine .rest idle (.inl (.inl ?_))
        rw [shown, history]
        rfl
      · have before : Busy page call := by
          obtain idle | ⟨other, there⟩ := display.single
          · have calls := (@newChat_calls browser page confirmed).1
            rw [idle.calls, busy.calls] at calls
            cases calls
          · have calls := (@newChat_calls browser page confirmed).1
            rw [there.calls, busy.calls] at calls
            cases calls
            exact there
        exact .reply call busy (.inr ⟨clears confirmed call rfl before, shown, history⟩)
  | respond call busy awaits status body =>
    unfold respond at stays ⊢
    split_ifs at stays ⊢
    · exact (fails _ busy).weaken (stays rfl nofun)
    · have shown : ReplyShown cleared page call := display.replyShown busy
      have alike : Display cleared (update page { call with awaiting := .chunk .start [] {} }) :=
        .reply _ (busy_update busy rfl rfl rfl) shown
      exact alike.weaken (stays rfl nofun)
    · exact (fails _ busy).weaken (stays rfl nofun)
  | chunk call busy decoder buffer chat awaits value =>
    obtain ⟨left, -, failed⟩ | ⟨later, -, waits⟩ :=
      takeChunk_cases browser page call decoder buffer chat value
    · rw [failed] at stays ⊢
      exact (fails _ busy).weaken (stays rfl nofun)
    · rw [waits] at stays ⊢
      have shown := replyShown_showIn (display.replyShown busy) later.assistantContent later.sawError
      refine Display.weaken ?_ (stays rfl nofun)
      exact .reply _ (busy_update (busy_showIn busy _ _ _) rfl rfl rfl) shown
  | close call busy decoder buffer chat =>
    obtain ⟨message, failed, -⟩ | ⟨later, -, -, replied⟩ :=
      endBody_cases browser page call decoder buffer chat
    · rw [failed] at stays ⊢
      exact (fails _ busy).weaken (stays rfl nofun)
    · rw [replied] at stays ⊢
      have alike : Display cleared (reply browser page call later) :=
        .rest (idle_reply busy later) (restShown_reply (display.replyShown busy) later)
      exact alike.weaken (stays (reply_controllers page call later) nofun)
  | reject call busy e => exact (fails e busy).weaken (stays rfl nofun)
  | expire call busy armed =>
    have alike : Display cleared (expire page call.timer) := by
      refine display.alike rfl rfl (fun idle => absurd idle busy.not_idle) fun other there => ?_
      cases there.calls.symm.trans busy.calls
      exact ⟨_, busy_expire busy armed, rfl⟩
    exact alike.weaken (stays rfl nofun)
  | aside e silent page' aside =>
    have alike : Display cleared page' := by
      rw [aside.same]
      refine display.alike rfl rfl (fun idle => ⟨idle.sending, idle.current, idle.calls, idle.timers⟩) ?_
      exact fun call busy => ⟨call, ⟨busy.sending, busy.current, busy.calls, busy.timers⟩, rfl⟩
    refine alike.weaken (stays (by rw [aside.same]) ?_)
    rintro rfl
    cases silent
  | reload page' again => exact display_opened again

/-- The chat was cleared while the page waited for the reply to its last question. -/
def ClearedMeanwhile (browser : Browser) (first : Page) (events : List Event) (page : Page) : Prop :=
  ∃ before confirmed after earlier call, events = before ++ .newChat confirmed :: after ∧
    run (step browser) first before = some earlier ∧ earlier.calls = [call] ∧
      call.controller + 1 = page.controllers ∧ ∀ e ∈ after, e ≠ .reload

theorem ClearedMeanwhile.stays {first : Page} {events : List Event} {e : Event}
    (cleared : ClearedMeanwhile browser first events page) (same : page'.controllers = page.controllers)
    (again : e ≠ .reload) : ClearedMeanwhile browser first (events ++ [e]) page' := by
  obtain ⟨before, confirmed, after, earlier, call, rfl, ran, waits, counted, none⟩ := cleared
  refine ⟨before, confirmed, after ++ [e], earlier, call, by simp, ran, waits, counted.trans same.symm, ?_⟩
  exact List.forall_mem_append.2 ⟨none, by simpa using again⟩

/-- What the page shows, in every run. -/
theorem shown_history (browser : Browser) {stored storedModel : Option Text} {showUncensored : Bool}
    {first page : Page} {events : List Event} (open_ : opened stored storedModel showUncensored = some first)
    (ran : run (step browser) first events = some page) :
    (page.calls = [] ∧ RestShown (ClearedMeanwhile browser first events page) page) ∨
      ∃ call, page.calls = [call] ∧ ReplyShown (ClearedMeanwhile browser first events page) page call := by
  have display : Display (ClearedMeanwhile browser first events page) page := by
    refine run_trace (fun events page => Display (ClearedMeanwhile browser first events page) page)
      (display_opened open_) ?_ ran
    intro seen between e after before display stepped
    refine display_step display stepped (fun same again cleared => cleared.stays same again) ?_
    rintro confirmed call rfl busy
    have counted := (received_run open_ before).counted call (by simp [busy.calls])
    cases stepped
    exact ⟨seen, confirmed, [], between, call, rfl, before, busy.calls,
      counted.trans (newChat_controllers between confirmed).symm, List.forall_mem_nil _⟩
  cases display with
  | rest idle shown => exact .inl ⟨idle.calls, shown⟩
  | reply call busy shown => exact .inr ⟨call, busy.calls, shown⟩

/-- The chat is cleared between two chunks of a reply. -/
theorem shown_history_answering :
    (answeredPage.calls = [] ∧ RestShown (ClearedMeanwhile steady firstPage answering answeredPage) answeredPage) ∨
      ∃ call, answeredPage.calls = [call] ∧
        ReplyShown (ClearedMeanwhile steady firstPage answering answeredPage) answeredPage call :=
  shown_history steady firstPage_eq answeredPage_eq

end CppCoder.ChatDisplay
