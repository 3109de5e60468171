import CppCoder.ChatForwarding

/-! Where the messages of the history come from: what the user asked, and what Ollama answered to a question
of the page, in whole unless its reply broke off within a line. -/

namespace CppCoder.ChatAnswers
open Support Utf8 Program JsonValue TextDecoder Machine
open ChatServer ChatHandlers ServerMemory ChatTurns ChatHistory ChatReplies ChatSystem ChatExchange ChatForwarding
open ChatSession (Message Page Call)
open ChatPage (Chat allLines cut onLine chatObject readLoop readLoop_stream lit)
open UpstreamFailures StreamReading

variable {parties : Parties} {s s' : ChatSystem.State}

theorem pushed_lines {chunks : List Bytes} {content : JsonText.Text}
    (pushed : (ChatPage.send chunks).pushed = some content) :
    (∀ line ∈ linesOf chunks.flatten, Quiet chatStops line) ∧
      content = (linesOf chunks.flatten).flatMap contentOf := by
  unfold ChatPage.send at pushed
  cases read : readLoop (onLine chatObject) .start [] chunks {} with
  | error e chat =>
    rw [read] at pushed
    cases pushed
  | ok _ chat =>
    rw [read] at pushed
    dsimp only at pushed
    split_ifs at pushed with empty unseen
    cases pushed
    rw [readLoop_stream] at read
    have quiet := (unseen_iff chat_handles (linesOf chunks.flatten) rfl).1 ⟨chat, read, unseen⟩
    cases (chatLines_quiet quiet {}).symm.trans read
    exact ⟨quiet, List.nil_append _⟩

theorem pushed_unseen {chunks : List Bytes} {content : JsonText.Text}
    (pushed : (ChatPage.send chunks).pushed = some content) :
    tells chatStops (allLines (decodeAll chunks.flatten)) = false := by
  rw [← send_sawError]
  by_contra seen
  rw [Bool.not_eq_false] at seen
  cases (send_pushed chunks seen).symm.trans pushed

theorem plain_decimal (n : Nat) : ∀ b ∈ decimal n, PlainByte b := by
  have digit : ∀ d < 10, PlainByte (UInt8.ofNat (48 + d)) := by decide
  induction n using Nat.strongRecOn with
  | ind n ih =>
    unfold decimal
    by_cases small : n < 10
    · rw [Nat.repr_of_lt small, ascii_digit small]
      exact List.forall_mem_singleton.2 (digit n small)
    · have front := ih (n / 10) (by omega)
      unfold decimal at front
      rw [Nat.repr_of_ge (by omega), ascii_append, ascii_digit (by omega)]
      exact List.forall_mem_append.2 ⟨front, List.forall_mem_singleton.2 (digit (n % 10) (by omega))⟩

theorem tells_alone {message : Bytes} (plain : ∀ b ∈ message, PlainByte b) (some : message ≠ []) :
    tells chatStops (allLines (decodeAll (writeNdjsonError message))) = true := by
  rw [← List.nil_append (writeNdjsonError message)]
  refine (tells_error chatStops [] plain some).2 (.inr ⟨?_, ?_⟩)
  · exact List.forall_mem_nil _
  · exact List.forall_mem_nil _

theorem chatProvider_unseen {upstream : Upstream}
    (unseen : tells chatStops (allLines (decodeAll (chatProvider upstream).flatten)) = false) :
    ∃ status body ending, upstream = .answers status body ending ∧ 200 ≤ status ∧ status < 300 ∧
      ∀ e, ending = .failed e → ¬ Delivered chatStops body.flatten := by
  have stopped : ∀ b ∈ ascii "Ollama did not send chat data for 60 seconds", PlainByte b := by decide +kernel
  have failed : ∀ b ∈ ascii "Ollama request failed: ", PlainByte b := by decide +kernel
  have returned : ∀ b ∈ ascii "Ollama returned HTTP ", PlainByte b := by decide +kernel
  cases upstream with
  | unreachable e =>
    have told : tells chatStops (allLines (decodeAll (chatProvider (.unreachable e)).flatten)) = true := by
      unfold chatProvider proxied
      dsimp only
      rw [List.flatten_singleton]
      split_ifs
      · exact tells_alone stopped (by decide)
      · refine tells_alone (List.forall_mem_append.2 ⟨failed, e.plain⟩) fun none => ?_
        exact absurd (List.append_eq_nil_iff.1 none).1 (by decide)
    cases told.symm.trans unseen
  | answers status body ending =>
    by_cases success : 200 ≤ status ∧ status < 300
    · refine ⟨status, body, ending, rfl, success.1, success.2, fun e broke delivered => ?_⟩
      subst broke
      obtain ⟨message, some, plain, written⟩ := proxied_failed "Ollama did not send chat data for 60 seconds"
        "Ollama request failed: " stopped failed (by decide) success body e
      change (chatProvider (.answers status body (.failed e))).flatten = _ at written
      rw [written] at unseen
      cases ((tells_error chatStops body.flatten plain some).2 delivered).symm.trans unseen
    · have told : tells chatStops (allLines (decodeAll (chatProvider (.answers status body ending)).flatten)) =
          true := by
        unfold chatProvider proxied
        dsimp only
        rw [if_neg success, List.flatten_singleton]
        refine tells_alone (List.forall_mem_append.2 ⟨returned, plain_decimal status⟩) fun none => ?_
        exact absurd (List.append_eq_nil_iff.1 none).1 (by decide)
      cases told.symm.trans unseen

theorem chat_replies (server : Server) (body : Bytes) (store : MemoryStore.Store) :
    Runs (postChat server body) store (fun response _ => (∀ status b, response = .content status b → status = 400) ∧
      ∀ path out, response = .stream path out → path = ascii "/api/chat") fun _ _ => True := by
  have onward : ∀ {α β : Type} {program : Handler α} {rest : α → Handler β} {store : MemoryStore.Store}
      {done : β → MemoryStore.Store → Prop},
      (∀ a store', Runs (rest a) store' done fun _ _ => True) →
      Runs (program >>= rest) store done fun _ _ => True := by
    intro α β program rest store done each
    exact Runs.bind (Runs.intro (fun a store' _ => each a store') fun _ _ _ => trivial)
  unfold postChat
  cases parsing : parse server body with
  | none =>
    rw [withBody_none parsing]
    refine runs_respond (fun _ => ⟨fun status b same => ?_, fun path out other => by cases other⟩) fun _ => trivial
    cases same
    rfl
  | some parsed =>
    rw [withBody_some parsing]
    refine onward fun messages _ => onward fun said _ => onward fun _ _ => onward fun store _ =>
      onward fun messages _ => onward fun model _ => ?_
    refine ⟨fun status b other => (by cases other), fun path out same => ?_⟩
    cases same
    rfl

/-- The message is what Ollama answered when the server asked it this question. Only a reply that broke off
within a line may be cut short. -/
structure Says (parties : Parties) (x : Exchange) (m : Message) : Prop where
  role : m.role = .assistant
  forwarded : ∃ out store, handle parties.server (.chat x.question.body) x.before =
    .ok (.stream (ascii "/api/chat") out) store
  answered : ∃ status body ending, x.upstream = .answers status body ending ∧ 200 ≤ status ∧ status < 300 ∧
    ∀ e, ending = .failed e → ¬ Delivered chatStops body.flatten
  quiet : ∀ line ∈ linesOf (chatProvider x.upstream).flatten, Quiet chatStops line
  content : m.content = (linesOf (chatProvider x.upstream).flatten).flatMap contentOf

theorem says_of_pushed {x : Exchange} {chunks : List Bytes} {content : JsonText.Text}
    (success : 200 ≤ (x.reply parties).1 ∧ (x.reply parties).1 < 300)
    (bytes : chunks.flatten = (x.reply parties).2) (pushed : (ChatPage.send chunks).pushed = some content) :
    Says parties x ⟨.assistant, content⟩ := by
  have replies := chat_replies parties.server x.question.body x.before
  unfold Exchange.reply ChatSystem.reply at success bytes
  cases result : handle parties.server (.chat x.question.body) x.before with
  | error e store =>
    rw [result] at success
    have small : 500 < 300 := success.2
    exact absurd small (by decide)
  | ok response store =>
    rw [result] at success bytes
    obtain ⟨refused, onward⟩ := replies.ok result
    cases response with
    | content status body =>
      obtain rfl := refused status body rfl
      have small : 400 < 300 := success.2
      exact absurd small (by decide)
    | stream path out =>
      obtain rfl := onward path out rfl
      dsimp only at bytes
      have unseen := pushed_unseen pushed
      obtain ⟨quiet, whole⟩ := pushed_lines pushed
      rw [bytes] at unseen quiet whole
      exact ⟨rfl, ⟨out, store, result⟩, chatProvider_unseen unseen, quiet, whole⟩

/-! ### Where messages come from -/

/-- A message that was there at first, that was asked, or that Ollama answered. -/
def Told (parties : Parties) (kept : List Message) (s : ChatSystem.State) (m : Message) : Prop :=
  m ∈ kept ∨ (m.role = .user ∧ ∃ q ∈ s.asked, q.request.messages.getLast? = some m) ∨
    ∃ x ∈ s.exchanges, Says parties x m

theorem Says.of_same {x y : Exchange} {m : Message} (spoken : Says parties x m)
    (same : (y.question, y.before, y.upstream) = (x.question, x.before, x.upstream)) : Says parties y m := by
  obtain ⟨question, before, upstream, pending⟩ := y
  cases same
  exact ⟨spoken.role, spoken.forwarded, spoken.answered, spoken.quiet, spoken.content⟩

theorem told_step {kept : List Message} {m : Message} (told : Told parties kept s m) {event : Event}
    (stepped : ChatSystem.step parties s event = some s') : Told parties kept s' m := by
  obtain first | ⟨user, q, member, last⟩ | ⟨x, member, spoken⟩ := told
  · exact .inl first
  · refine .inr (.inl ⟨user, q, ?_, last⟩)
    cases step_turns stepped with
    | page => exact List.mem_append_left _ member
    | _ => exact member
  · refine .inr (.inr ?_)
    cases step_turns stepped with
    | page => exact ⟨x, member, spoken⟩
    | arrive => exact ⟨x, List.mem_append_left _ member, spoken⟩
    | other => exact ⟨x, member, spoken⟩
    | answer event k z found here e answers left page turned part =>
      let core (x : Exchange) := (x.question, x.before, x.upstream)
      have listed : core x ∈ (s.exchanges.set k { z with pending := left }).map core := by
        rw [map_reached core found left rfl]
        exact List.mem_map_of_mem member
      obtain ⟨y, there, same⟩ := List.mem_map.1 listed
      exact ⟨y, there, spoken.of_same same⟩

theorem told_turned {kept : List Message} (sound : ChatTurns.Reached parties.browser s.page)
    {e : ChatSession.Event} (own : isAnswer e = false) (stays : e ≠ .reload) {page : Page}
    (turned : ChatSession.step parties.browser s.page e = some page)
    (told : ∀ m ∈ s.page.history, Told parties kept (s.turned e page) m) :
    ∀ m ∈ page.history, Told parties kept (s.turned e page) m := by
  rw [step_history sound.single (reading_reached sound) turned stays]
  cases e with
  | send input =>
    intro m member
    change m ∈ (if Asks s.page input then _ else s.page.history) at member
    split_ifs at member with asks
    · obtain old | new := List.mem_append.1 member
      · exact told m old
      · have idle : Idle s.page := by
          obtain idle | ⟨call, busy⟩ := sound.single
          · exact idle
          · cases asks.1.symm.trans busy.sending
        have calls : page.calls = [asked s.page (JsonText.trim input)] := by
          cases turned
          rw [send_asks parties.browser asks]
          exact (busy_request idle _).calls
        refine .inr (.inl ⟨?_, questionOf s.visit (asked s.page (JsonText.trim input)), ?_, ?_⟩)
        · rw [List.mem_singleton.1 new]
        · unfold State.turned
          dsimp only
          rw [questions_asks _ s.visit calls]
          exact List.mem_append_right _ (List.mem_singleton_self _)
        · rw [List.mem_singleton.1 new]
          exact List.getLast?_concat
    · exact told m member
  | newChat confirmed =>
    intro m member
    change m ∈ (if confirmed = true then [] else s.page.history) at member
    split_ifs at member
    · cases member
    · exact told m member
  | closed controller => cases own
  | _ => exact told

theorem closed_whole (accounted : Accounted parties s) {k : Nat} {x : Exchange}
    (found : s.exchanges[k]? = some x) (here : x.question.visit = s.visit) (whole : x.pending = [])
    {call : Call} (waiting : call ∈ s.page.calls) (controller : call.controller = x.question.controller)
    (begun : call.awaiting ≠ .response) :
    call.received.flatten = (x.reply parties).2 ∧ 200 ≤ (x.reply parties).1 ∧ (x.reply parties).1 < 300 := by
  have replying := accounted.replying (List.mem_of_getElem? found) here waiting controller
  have bytes := replying.bytes
  rw [whole, List.append_nil] at bytes
  exact ⟨bytes, replying.begun begun⟩

theorem told_answered {kept : List Message} {file : Option Bytes} (sound : Sound parties file s) {k : Nat}
    {x : Exchange} (found : s.exchanges[k]? = some x) (here : x.question.visit = s.visit)
    {e : ChatSession.Event} (answers : isAnswer e = true) {left : Bytes} {page : Page}
    (turned : ChatSession.step parties.browser s.page e = some page)
    (part : (∃ body, e = .responded x.question.controller (x.reply parties).1 body ∧ left = x.pending) ∨
      (∃ length, e = .chunk x.question.controller (x.pending.take length) ∧ left = x.pending.drop length) ∨
      e = .closed x.question.controller ∧ left = x.pending ∧ x.pending = [])
    (told : ∀ m ∈ s.page.history, Told parties kept (reached s k x left page) m) :
    ∀ m ∈ page.history, Told parties kept (reached s k x left page) m := by
  have stays : e ≠ .reload := by
    intro again
    subst again
    cases answers
  rw [step_history sound.alone.single (reading_reached sound.alone) turned stays]
  obtain ⟨body, rfl, -⟩ | ⟨length, rfl, -⟩ | ⟨rfl, -, whole⟩ := part
  · exact told
  · exact told
  · intro m member
    obtain old | new := List.mem_append.1 member
    · exact told m old
    · obtain ⟨call, waits, closes⟩ := Option.bind_eq_some_iff.1 turned
      change m ∈ pushed ((s.page.call x.question.controller).elim [] Call.received) at new
      rw [waits, Option.elim_some] at new
      have waiting := List.mem_of_find?_eq_some waits
      have controller : call.controller = x.question.controller := by
        simpa using List.find?_some waits
      have begun : call.awaiting ≠ .response := by
        intro awaits
        rw [awaits] at closes
        cases closes
      obtain ⟨bytes, success⟩ := closed_whole sound.accounted found here whole waiting controller begun
      obtain ⟨content, pushed, rfl⟩ : ∃ content, (ChatPage.send call.received).pushed = some content ∧
          ⟨.assistant, content⟩ = m := by
        simpa [ChatReplies.pushed] using new
      obtain ⟨small, -⟩ := List.getElem?_eq_some_iff.1 found
      have spoken := says_of_pushed success bytes pushed
      exact .inr (.inr ⟨_, List.mem_set small _, spoken.of_same rfl⟩)

/-- Everything in the history, and in what the browser has stored of it, comes from somewhere. -/
structure Remembers (parties : Parties) (kept : List Message) (s : ChatSystem.State) : Prop where
  shown : ∀ m ∈ s.page.history, Told parties kept s m
  stored : ∃ old, ChatSession.loadHistory s.page.stored = some old ∧ ∀ m ∈ old, Told parties kept s m

theorem remembers_page {kept : List Message} {e : ChatSession.Event} (single : Single s.page)
    (turned : ChatSession.step parties.browser s.page e = some s'.page) (stays : e ≠ .reload)
    (shown : ∀ m ∈ s'.page.history, Told parties kept s' m)
    (stored : ∃ old, ChatSession.loadHistory s.page.stored = some old ∧ ∀ m ∈ old, Told parties kept s' m) :
    Remembers parties kept s' := by
  refine ⟨shown, ?_⟩
  obtain written | ⟨same, -⟩ := step_stored single turned stays
  · rw [written]
    exact ⟨s'.page.history, loadHistory_text _, shown⟩
  · rwa [same]

theorem remembers_step {kept : List Message} {file : Option Bytes} (sound : Sound parties file s)
    (remembers : Remembers parties kept s) {event : Event}
    (stepped : ChatSystem.step parties s event = some s') : Remembers parties kept s' := by
  have shown : ∀ m ∈ s.page.history, Told parties kept s' m :=
    fun m member => told_step (remembers.shown m member) stepped
  have stored : ∃ old, ChatSession.loadHistory s.page.stored = some old ∧ ∀ m ∈ old, Told parties kept s' m := by
    obtain ⟨old, loaded, told⟩ := remembers.stored
    exact ⟨old, loaded, fun m member => told_step (told m member) stepped⟩
  cases step_turns stepped with
  | page e own page turned =>
    by_cases again : e = .reload
    · subst again
      obtain ⟨loaded, same⟩ := opened_history turned
      obtain ⟨old, found, told⟩ := stored
      cases found.symm.trans loaded
      exact ⟨told, page.history, same ▸ loaded, told⟩
    · exact remembers_page sound.alone.single turned again (told_turned sound.alone own again turned shown) stored
  | arrive => exact ⟨shown, stored⟩
  | other => exact ⟨shown, stored⟩
  | answer event k x found here e answers left page turned part =>
    have stays : e ≠ .reload := by
      intro again
      subst again
      cases answers
    exact remembers_page sound.alone.single turned stays
      (told_answered sound found here answers turned part shown) stored

/-- Over any number of visits, every message of the history was there when the page was first opened, was
asked by the user, or is what Ollama answered to a question of the page that the server sent on. -/
theorem history_told (parties : Parties) (file : Option Bytes) {stored storedModel : Option JsonText.Text}
    {showUncensored : Bool} {first : Page} {events : List Event} {s : ChatSystem.State}
    (open_ : ChatSession.opened stored storedModel showUncensored = some first)
    (ran : run (ChatSystem.step parties) (begun parties.server file first) events = some s) :
    ∀ m ∈ s.page.history, Told parties first.history s m := by
  obtain ⟨loaded, same⟩ := opened_history open_
  have begins : Remembers parties first.history (begun parties.server file first) :=
    ⟨fun m member => .inl member, first.history, same ▸ loaded, fun m member => .inl member⟩
  have both : Sound parties file s ∧ Remembers parties first.history s := by
    refine run_invariant (fun s => Sound parties file s ∧ Remembers parties first.history s)
      (fun s e s' holds stepped => ?_) ⟨sound_begun open_, begins⟩ ran
    exact ⟨sound_step holds.1 stepped, remembers_step holds.1 holds.2 stepped⟩
  exact both.2.shown

theorem history_told_visited : Told visiting firstPage.history visited ⟨.assistant, lit "Hello"⟩ :=
  history_told visiting none firstPage_eq visited_eq ⟨.assistant, lit "Hello"⟩ (by decide +kernel)

end CppCoder.ChatAnswers
