import Mathlib.Data.List.Chain
import CppCoder.ChatTurns

/-! What the history of the chat page is in every run: a conversation, in which a reply follows a question,
unless the chat was cleared in between, and which the browser gives back when the page is opened again. -/

namespace CppCoder.ChatHistory
open Support Utf8 JsonText TextDecoder ChatSession ChatTurns Machine
open ChatPage (Chat cut onLine chatObject readLoop lit)

structure Conversation where
  messages : List Message
  waiting : Bool

namespace Conversation

inductive Step : Conversation → Conversation → Prop where
  | ask (messages : List Message) (text : Text) (some : text ≠ []) :
      Step ⟨messages, false⟩ ⟨messages ++ [⟨.user, text⟩], true⟩
  | answer (messages : List Message) (text : Text) (some : text ≠ []) :
      Step ⟨messages, true⟩ ⟨messages ++ [⟨.assistant, text⟩], false⟩
  | giveUp (messages : List Message) : Step ⟨messages, true⟩ ⟨messages, false⟩
  | clear (messages : List Message) (waiting : Bool) : Step ⟨messages, waiting⟩ ⟨[], waiting⟩

/-- No reply stands behind another. -/
def Apart (a b : Message) : Prop := ¬ (a.role = .assistant ∧ b.role = .assistant)

structure Alternates (messages : List Message) : Prop where
  apart : messages.IsChain Apart
  some : ∀ m ∈ messages, m.content ≠ []

/-- While a reply is awaited, the last message is no reply. -/
structure Sound (c : Conversation) : Prop where
  alternates : Alternates c.messages
  asked : c.waiting = true → ∀ m ∈ c.messages.getLast?, m.role = .user

theorem alternates_nil : Alternates [] := ⟨List.isChain_nil, by simp⟩

theorem Alternates.concat {messages : List Message} (alternates : Alternates messages) {m : Message}
    (some : m.content ≠ []) (apart : ∀ last ∈ messages.getLast?, Apart last m) :
    Alternates (messages ++ [m]) := by
  constructor
  · rw [List.isChain_append]
    refine ⟨alternates.apart, List.isChain_singleton m, ?_⟩
    intro last there first same
    cases same
    exact apart last there
  · intro other member
    obtain old | new := List.mem_append.1 member
    · exact alternates.some other old
    · exact List.mem_singleton.1 new ▸ some

theorem Sound.step {c c' : Conversation} (sound : Sound c) (stepped : Step c c') : Sound c' := by
  cases stepped with
  | ask messages text some =>
    refine ⟨sound.alternates.concat some fun last _ both => ?_, fun _ m last => ?_⟩
    · cases both.2
    · simp only [List.getLast?_append, List.getLast?_singleton, Option.some_or, Option.mem_some] at last
      exact last ▸ rfl
  | answer messages text some =>
    refine ⟨sound.alternates.concat some fun last there both => ?_, fun waits => by cases waits⟩
    have user := sound.asked rfl last there
    cases both.1.symm.trans user
  | giveUp messages => exact ⟨sound.alternates, fun waits => by cases waits⟩
  | clear messages waiting => exact ⟨alternates_nil, fun _ m last => by cases last⟩

theorem Sound.steps {c c' : Conversation} (sound : Sound c) (stepped : Relation.ReflTransGen Step c c') :
    Sound c' := by
  induction stepped with
  | refl => exact sound
  | tail _ stepped ih => exact ih.step stepped

end Conversation

open Conversation

variable {browser : Browser} {page page' : Page} {call : Call}

/-- The page, seen as a conversation. -/
def view (page : Page) : Conversation := ⟨page.history, page.sending⟩

theorem Busy.view_eq (busy : Busy page call) : view page = ⟨page.history, true⟩ := by
  rw [view, busy.sending]

theorem fail_view (page : Page) (call : Call) (e : Failure) : view (fail page call e) =
    ⟨page.history, false⟩ := rfl

theorem reply_view (page : Page) (call : Call) (chat : Chat) : view (reply browser page call chat) =
    ⟨if chat.sawError then page.history else page.history ++ [⟨.assistant, chat.assistantContent⟩], false⟩ := by
  unfold reply
  cases chat.sawError <;> rfl

theorem newChat_view (browser : Browser) (page : Page) (confirmed : Bool) :
    view (newChat browser page confirmed) = view page ∨
      view (newChat browser page confirmed) = ⟨[], page.sending⟩ := by
  unfold newChat
  split_ifs
  · exact .inl rfl
  · rw [renderAll_eq]
    exact .inr rfl

theorem step_converses (single : Single page) {e : Event} (stepped : step browser page e = some page')
    (stays : e ≠ .reload) : view page' = view page ∨ Conversation.Step (view page) (view page') := by
  have gives : ∀ {call : Call} (e : Failure), Busy page call →
      Conversation.Step (view page) (view (fail page call e)) := by
    intro call e busy
    rw [fail_view, Busy.view_eq busy]
    exact .giveUp page.history
  cases step_turn single stepped with
  | ask input idle some =>
    right
    rw [request_eq]
    unfold view
    rw [idle.sending]
    exact .ask page.history (trim input) some
  | stop => exact .inl rfl
  | clear confirmed =>
    obtain same | cleared := newChat_view browser page confirmed
    · exact .inl same
    · rw [cleared]
      exact .inr (.clear page.history page.sending)
  | respond call busy awaits status body =>
    unfold respond
    split_ifs
    · exact .inr (gives _ busy)
    · exact .inl rfl
    · exact .inr (gives _ busy)
  | chunk call busy decoder buffer chat awaits value =>
    obtain ⟨left, -, failed⟩ | ⟨later, -, waits⟩ :=
      takeChunk_cases browser page call decoder buffer chat value
    · exact .inr (failed ▸ gives _ busy)
    · exact .inl (waits ▸ rfl)
  | close call busy decoder buffer chat =>
    right
    obtain ⟨message, failed, -⟩ | ⟨later, -, some, replied⟩ :=
      endBody_cases browser page call decoder buffer chat
    · exact failed ▸ gives _ busy
    · rw [replied, reply_view, Busy.view_eq busy]
      split_ifs with error
      · exact .giveUp page.history
      · exact .answer page.history _ fun empty => some ⟨empty, by simpa using error⟩
  | reject call busy e => exact .inr (gives e busy)
  | expire => exact .inl rfl
  | aside e silent page' aside =>
    left
    rw [aside.same]
    rfl
  | reload page' again => exact absurd rfl stays

/-! ### What the browser stores -/

theorem readMessage_document (m : Message) : readMessage m.document.value = some m := by
  obtain ⟨role, content⟩ := m
  cases role <;> rfl

theorem loadHistory_text (history : List Message) :
    loadHistory (some (historyText history)) = some history := by
  have some : historyText history ≠ [] := by simp [historyText, Document.text]
  have items : ∀ messages : List Message,
      (valueItems (messages.map Message.document)).mapM readMessage = Option.some messages := by
    intro messages
    induction messages with
    | nil => rfl
    | cons m rest ih =>
      rw [List.map_cons, valueItems, List.mapM_cons, readMessage_document, ih]
      rfl
  unfold loadHistory
  dsimp only
  rw [if_neg some, historyText, parse_text]
  exact items history

theorem opened_history {stored storedModel : Option Text} {showUncensored : Bool}
    (open_ : opened stored storedModel showUncensored = some page) :
    loadHistory stored = some page.history ∧ page.stored = stored := by
  obtain ⟨history, found, rfl⟩ := Option.map_eq_some_iff.1 open_
  rw [renderAll_eq]
  exact ⟨found, rfl⟩

theorem step_stored (single : Single page) {e : Event} (stepped : step browser page e = some page')
    (stays : e ≠ .reload) :
    page'.stored = some (historyText page'.history) ∨
      page'.stored = page.stored ∧ (page'.history = page.history ∨ browser.keeps page.saves = false) := by
  have saved : ∀ history : List Message,
      (if browser.keeps page.saves then some (historyText history) else page.stored) =
          some (historyText history) ∨
        (if browser.keeps page.saves then some (historyText history) else page.stored) = page.stored ∧
          browser.keeps page.saves = false := by
    intro history
    cases kept : browser.keeps page.saves
    · exact .inr ⟨rfl, rfl⟩
    · exact .inl rfl
  cases step_turn single stepped with
  | ask input idle some =>
    rw [request_eq]
    obtain written | lost := saved (page.history ++ [⟨.user, trim input⟩])
    · exact .inl written
    · exact .inr ⟨lost.1, .inr lost.2⟩
  | stop => exact .inr ⟨rfl, .inl rfl⟩
  | clear confirmed =>
    unfold newChat
    split_ifs
    · exact .inr ⟨rfl, .inl rfl⟩
    · rw [renderAll_eq]
      obtain written | lost := saved []
      · exact .inl written
      · exact .inr ⟨lost.1, .inr lost.2⟩
  | respond call busy awaits status body =>
    right
    unfold respond
    split_ifs <;> exact ⟨rfl, .inl rfl⟩
  | chunk call busy decoder buffer chat awaits value =>
    right
    obtain ⟨left, -, failed⟩ | ⟨later, -, waits⟩ :=
      takeChunk_cases browser page call decoder buffer chat value
    · rw [failed]
      exact ⟨rfl, .inl rfl⟩
    · rw [waits]
      exact ⟨rfl, .inl rfl⟩
  | close call busy decoder buffer chat =>
    obtain ⟨message, failed, -⟩ | ⟨later, -, some, replied⟩ :=
      endBody_cases browser page call decoder buffer chat
    · rw [failed]
      exact .inr ⟨rfl, .inl rfl⟩
    · rw [replied]
      unfold reply
      cases later.sawError with
      | true => exact .inr ⟨rfl, .inl rfl⟩
      | false =>
        obtain written | lost := saved (page.history ++ [⟨.assistant, later.assistantContent⟩])
        · exact .inl written
        · exact .inr ⟨lost.1, .inr lost.2⟩
  | reject call busy e => exact .inr ⟨rfl, .inl rfl⟩
  | expire => exact .inr ⟨rfl, .inl rfl⟩
  | aside e silent page' aside =>
    rw [aside.same]
    exact .inr ⟨rfl, .inl rfl⟩
  | reload page' again => exact absurd rfl stays

/-- What holds of the history in every run. -/
structure Kept (browser : Browser) (page : Page) : Prop where
  single : Single page
  sound : Sound (view page)
  stored : ∃ kept, loadHistory page.stored = some kept ∧ Alternates kept ∧
    ((∀ save, browser.keeps save = true) → kept = page.history)

theorem kept_opened {stored storedModel : Option Text} {showUncensored : Bool}
    (alternates : ∀ history, loadHistory stored = some history → Alternates history)
    (open_ : opened stored storedModel showUncensored = some page) : Kept browser page := by
  obtain ⟨loaded, same⟩ := opened_history open_
  have idle := single_opened open_
  refine ⟨.inl idle, ⟨alternates _ loaded, fun waits => ?_⟩, page.history, same ▸ loaded,
    alternates _ loaded, fun _ => rfl⟩
  cases waits.symm.trans idle.sending

theorem kept_step {e : Event} (kept : Kept browser page) (stepped : step browser page e = some page') :
    Kept browser page' := by
  obtain ⟨old, loaded, alternates, current⟩ := kept.stored
  by_cases again : e = .reload
  · subst again
    refine kept_opened (fun history found => ?_) stepped
    cases loaded.symm.trans found
    exact alternates
  · have sound : Sound (view page') := by
      obtain same | stepped := step_converses kept.single stepped again
      · exact same ▸ kept.sound
      · exact kept.sound.step stepped
    refine ⟨single_step kept.single stepped, sound, ?_⟩
    obtain written | ⟨same, unchanged⟩ := step_stored kept.single stepped again
    · exact ⟨page'.history, by rw [written, loadHistory_text], sound.alternates, fun _ => rfl⟩
    · refine ⟨old, by rw [same, loaded], alternates, fun all => ?_⟩
      obtain unchanged | lost := unchanged
      · rw [unchanged, current all]
      · cases lost.symm.trans (all page.saves)

/-- The history alternates in every run, over any number of visits, and if no save fails, opening the page
again gives it back. -/
theorem history_kept (browser : Browser) {stored storedModel : Option Text} {showUncensored : Bool}
    {first page : Page} {events : List Event}
    (alternates : ∀ history, loadHistory stored = some history → Alternates history)
    (open_ : opened stored storedModel showUncensored = some first)
    (ran : run (step browser) first events = some page) :
    Sound (view page) ∧ ∃ kept, loadHistory page.stored = some kept ∧ Alternates kept ∧
      ((∀ save, browser.keeps save = true) → kept = page.history) := by
  have kept : Kept browser page :=
    run_invariant _ (fun _ _ _ kept stepped => kept_step kept stepped) (kept_opened alternates open_) ran
  exact ⟨kept.sound, kept.stored⟩

theorem history_kept_greeted : Sound (view greeted) ∧ ∃ kept, loadHistory greeted.stored = some kept ∧
    Alternates kept ∧ ((∀ save, steady.keeps save = true) → kept = greeted.history) := by
  refine history_kept steady ?_ firstPage_eq greeted_eq
  intro history none
  cases none
  exact alternates_nil

end CppCoder.ChatHistory
