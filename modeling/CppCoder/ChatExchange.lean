import CppCoder.ChatSystem
import Mathlib.Data.List.Perm.Basic

/-! What becomes of a question between the page and Ollama: it reaches the server once at most, in the words
of the page, and what the page keeps of a reply is what Ollama answered to it. -/

namespace CppCoder.ChatExchange
open Support Utf8 Program JsonValue TextDecoder Machine
open JsonText (Text trim)
open ChatServer ChatHandlers ServerMemory ChatTurns ChatHistory ChatReplies ChatSystem
open ChatSession (Browser Page Message Call)
open ChatPage (Chat cut onLine chatObject lit)
open MemoryStore (Store)
open EventsFile (encode jsonOf)

variable {browser : Browser} {page page' : Page} {call : Call}

/-! ### The calls of a page -/

structure Carries (e : ChatSession.Event) (old call : Call) : Prop where
  controller : call.controller = old.controller
  request : call.request = old.request
  rests : isAnswer e = false → call.awaiting = old.awaiting ∧ call.received = old.received

theorem carries_refl (e : ChatSession.Event) (call : Call) : Carries e call call :=
  ⟨rfl, rfl, fun _ => ⟨rfl, rfl⟩⟩

inductive Continues (page : Page) (e : ChatSession.Event) (page' : Page) : Prop where
  | asks (text : Text) (idle : page.calls = []) (calls : page'.calls = [asked page text])
      (counted : page'.controllers = page.controllers + 1) (here : visits e = 0)
      (own : isAnswer e = false)
  | keeps (calls : ∀ call ∈ page'.calls, ∃ old ∈ page.calls, Carries e old call)
      (counted : page'.controllers = page.controllers) (here : visits e = 0)
  | opens (calls : page'.calls = []) (again : visits e = 1) (own : isAnswer e = false)

theorem carries_update {e : ChatSession.Event} (busy : Busy page call) {later : Call}
    (carries : Carries e call later) :
    ∀ other ∈ (ChatSession.update page later).calls, ∃ old ∈ page.calls, Carries e old other := by
  intro other member
  change other ∈ page.calls.map _ at member
  rw [busy.calls, List.map_singleton, if_pos carries.controller.symm, List.mem_singleton] at member
  exact ⟨call, by simp [busy.calls], member ▸ carries⟩

theorem carries_none {e : ChatSession.Event} (idle : Idle page') :
    ∀ other ∈ page'.calls, ∃ old ∈ page.calls, Carries e old other := by
  intro other member
  rw [idle.calls] at member
  cases member

theorem step_continues (single : Single page) {e : ChatSession.Event}
    (stepped : ChatSession.step browser page e = some page') : Continues page e page' := by
  have same : ∀ {other : Page}, other.calls = page.calls →
      ∀ call ∈ other.calls, ∃ old ∈ page.calls, Carries e old call := by
    intro other equal call member
    exact ⟨call, equal ▸ member, carries_refl e call⟩
  cases step_turn single stepped with
  | ask input idle =>
    have busy : Busy (ChatSession.request browser page (trim input)) _ := busy_request idle (trim input)
    refine .asks (trim input) idle.calls busy.calls ?_ rfl rfl
    rw [request_eq]
  | stop input call busy => exact .keeps (same rfl) rfl rfl
  | clear confirmed =>
    exact .keeps (same (newChat_calls page confirmed).1) (newChat_controllers page confirmed) rfl
  | respond call busy awaits status body =>
    unfold ChatSession.respond
    split_ifs
    · exact .keeps (carries_none (idle_fail busy _)) rfl rfl
    · exact .keeps (carries_update busy ⟨rfl, rfl, nofun⟩) rfl rfl
    · exact .keeps (carries_none (idle_fail busy _)) rfl rfl
  | chunk call busy decoder buffer chat awaits value =>
    obtain ⟨left, -, failed⟩ | ⟨later, -, waits⟩ :=
      takeChunk_cases browser page call decoder buffer chat value
    · rw [failed]
      exact .keeps (carries_none (idle_fail busy _)) rfl rfl
    · rw [waits]
      exact .keeps (carries_update (busy_showIn busy _ _ _) ⟨rfl, rfl, nofun⟩) rfl rfl
  | close call busy decoder buffer chat =>
    obtain ⟨message, failed, -⟩ | ⟨later, -, -, replied⟩ :=
      endBody_cases browser page call decoder buffer chat
    · rw [failed]
      exact .keeps (carries_none (idle_fail busy _)) rfl rfl
    · rw [replied]
      exact .keeps (carries_none (idle_reply busy later)) (reply_controllers page call later) rfl
  | reject call busy failure => exact .keeps (carries_none (idle_fail busy failure)) rfl rfl
  | expire call busy armed =>
    refine .keeps (fun other member => ?_) rfl rfl
    obtain ⟨old, there, rfl⟩ := List.mem_map.1 (show other ∈ page.calls.map _ from member)
    refine ⟨old, there, ?_⟩
    split_ifs
    · exact ⟨rfl, rfl, fun _ => ⟨rfl, rfl⟩⟩
    · exact carries_refl _ old
  | aside e silent page' aside =>
    have calls : page'.calls = page.calls := by rw [aside.same]
    have counted : page'.controllers = page.controllers := by rw [aside.same]
    refine .keeps (same calls) counted ?_
    cases e <;> first | rfl | cases silent
  | reload page' again => exact .opens (single_opened again).calls rfl rfl

/-- What an answer of the server does to a call that goes on; at the end of a body none does. -/
def Moves (e : ChatSession.Event) (call later : Call) : Prop :=
  match e with
  | .responded controller status _ =>
      call.controller = controller ∧ later.received = call.received ∧ 200 ≤ status ∧ status < 300
  | .chunk controller value =>
      call.controller = controller ∧ later.received = call.received ++ [value] ∧ call.awaiting ≠ .response
  | _ => False

theorem step_moves (single : Single page) {e : ChatSession.Event}
    (stepped : ChatSession.step browser page e = some page') (answers : isAnswer e = true) :
    ∀ later ∈ page'.calls, ∃ call ∈ page.calls, Carries e call later ∧ Moves e call later := by
  have over_ : Idle page' → ∀ later ∈ page'.calls, ∃ call ∈ page.calls, Carries e call later ∧
      Moves e call later := by
    intro idle later member
    rw [idle.calls] at member
    cases member
  cases step_turn single stepped with
  | respond call busy awaits status body =>
    unfold ChatSession.respond at over_ ⊢
    split_ifs at over_ ⊢ with success readable
    · exact over_ (idle_fail busy _)
    · intro later member
      change later ∈ page.calls.map _ at member
      rw [busy.calls, List.map_singleton, if_pos rfl, List.mem_singleton] at member
      subst member
      obtain ⟨low, high⟩ := success
      exact ⟨call, by simp [busy.calls], ⟨rfl, rfl, nofun⟩, rfl, rfl, low, high⟩
    · exact over_ (idle_fail busy _)
  | chunk call busy decoder buffer chat awaits value =>
    obtain ⟨left, -, failed⟩ | ⟨waiting, -, waits⟩ :=
      takeChunk_cases browser page call decoder buffer chat value
    · exact over_ (failed ▸ idle_fail busy _)
    · rw [waits]
      intro later member
      change later ∈ page.calls.map _ at member
      rw [busy.calls, List.map_singleton, if_pos rfl, List.mem_singleton] at member
      subst member
      exact ⟨call, by simp [busy.calls], ⟨rfl, rfl, nofun⟩, rfl, rfl, by simp [awaits]⟩
  | close call busy decoder buffer chat =>
    apply over_
    obtain ⟨message, failed, -⟩ | ⟨waiting, -, -, replied⟩ :=
      endBody_cases browser page call decoder buffer chat
    · exact failed ▸ idle_fail busy _
    · exact replied ▸ idle_reply busy waiting
  | aside e silent page' aside => cases e <;> cases silent <;> cases answers
  | _ => cases answers

variable {parties : Parties} {s s' : State}

def questionOf (visit : Nat) (call : Call) : Question := ⟨visit, call.controller, call.request⟩

theorem Carries.question {e : ChatSession.Event} {old call : Call} (carries : Carries e old call)
    (visit : Nat) : questionOf visit call = questionOf visit old := by
  unfold questionOf
  rw [carries.controller, carries.request]

/-- The reply that a call waits for: what has come in and what is left of it is all of it. -/
structure Replying (parties : Parties) (visit : Nat) (call : Call) (x : Exchange) : Prop where
  question : x.question = questionOf visit call
  bytes : call.received.flatten ++ x.pending = (x.reply parties).2
  begun : call.awaiting ≠ .response → 200 ≤ (x.reply parties).1 ∧ (x.reply parties).1 < 300

def Waits (parties : Parties) (s : State) (call : Call) : Prop :=
  (questionOf s.visit call ∈ s.wire ∧ call.awaiting = .response ∧ call.received = []) ∨
    ∃ x ∈ s.exchanges, Replying parties s.visit call x

structure Accounted (parties : Parties) (s : State) : Prop where
  split : s.asked.Perm (s.wire ++ s.exchanges.map Exchange.question)
  distinct : (s.asked.map Question.key).Nodup
  numbered : ∀ q ∈ s.asked, q.visit < s.visit ∨ q.visit = s.visit ∧ q.controller < s.page.controllers
  calls : ∀ call ∈ s.page.calls, Waits parties s call

namespace Accounted

theorem keys (accounted : Accounted parties s) :
    (s.wire.map Question.key ++ s.exchanges.map fun x => x.question.key).Nodup := by
  have keys := (accounted.split.map Question.key).nodup_iff.1 accounted.distinct
  rwa [List.map_append, List.map_map] at keys

theorem unique (accounted : Accounted parties s) {x y : Exchange} (here : x ∈ s.exchanges)
    (there : y ∈ s.exchanges) (same : x.question.key = y.question.key) : x = y :=
  List.inj_on_of_nodup_map (List.nodup_append.1 accounted.keys).2.1 here there same

theorem apart (accounted : Accounted parties s) {q : Question} {x : Exchange} (coming : q ∈ s.wire)
    (there : x ∈ s.exchanges) : x.question.key ≠ q.key := by
  intro same
  exact (List.nodup_append.1 accounted.keys).2.2 _ (List.mem_map_of_mem coming) _ (List.mem_map_of_mem there)
    same.symm

theorem replying (accounted : Accounted parties s) {x : Exchange} (there : x ∈ s.exchanges)
    (here : x.question.visit = s.visit) {call : Call} (waiting : call ∈ s.page.calls)
    (controller : call.controller = x.question.controller) : Replying parties s.visit call x := by
  have key : x.question.key = (questionOf s.visit call).key := Prod.ext here controller.symm
  obtain ⟨coming, -, -⟩ | ⟨y, present, replying⟩ := accounted.calls call waiting
  · exact absurd key (accounted.apart coming there)
  · obtain rfl := accounted.unique there present (by rw [key, replying.question])
    exact replying

end Accounted

/-- The system after something of a reply has reached the page. -/
def reached (s : State) (k : Nat) (x : Exchange) (left : Bytes) (page : Page) : State :=
  { s with page, exchanges := s.exchanges.set k { x with pending := left } }

inductive Turns (parties : Parties) (s : State) : Event → State → Prop where
  | page (e : ChatSession.Event) (own : isAnswer e = false) (page : Page)
      (stepped : ChatSession.step parties.browser s.page e = some page) :
      Turns parties s (.page e) (s.turned e page)
  | arrive (k : Nat) (question : Question) (found : s.wire[k]? = some question) (upstream : Upstream) :
      Turns parties s (.arrive k upstream)
        { s with
          wire := s.wire.eraseIdx k
          store := serve parties.server s.store (.chat question.body)
          exchanges := s.exchanges ++
            [⟨question, s.store, upstream, (reply parties question s.store upstream).2⟩] }
  | other (request : Request) :
      Turns parties s (.other request) { s with store := serve parties.server s.store request }
  | answer (event : Event) (k : Nat) (x : Exchange) (found : s.exchanges[k]? = some x)
      (here : x.question.visit = s.visit) (e : ChatSession.Event) (answers : isAnswer e = true)
      (left : Bytes) (page : Page)
      (stepped : ChatSession.step parties.browser s.page e = some page)
      (part : (∃ body, e = .responded x.question.controller (x.reply parties).1 body ∧ left = x.pending) ∨
        (∃ length, e = .chunk x.question.controller (x.pending.take length) ∧ left = x.pending.drop length) ∨
        e = .closed x.question.controller ∧ left = x.pending ∧ x.pending = []) :
      Turns parties s event (reached s k x left page)

theorem reach_turns {event : Event} {k : Nat} {e : Exchange → ChatSession.Event} {left : Exchange → Bytes}
    (stepped : s.reach parties k e left = some s') (answers : ∀ x, isAnswer (e x) = true)
    (part : ∀ x, s.exchanges[k]? = some x →
      (∃ body, e x = .responded x.question.controller (x.reply parties).1 body ∧ left x = x.pending) ∨
      (∃ length, e x = .chunk x.question.controller (x.pending.take length) ∧
        left x = x.pending.drop length) ∨
      e x = .closed x.question.controller ∧ left x = x.pending ∧ x.pending = []) :
    Turns parties s event s' := by
  unfold State.reach at stepped
  obtain ⟨x, found, moved⟩ := Option.bind_eq_some_iff.1 stepped
  split_ifs at moved with here
  obtain ⟨page, took, rfl⟩ := Option.map_eq_some_iff.1 moved
  exact .answer event k x found here (e x) (answers x) (left x) page took (part x found)

theorem step_turns {event : Event} (stepped : ChatSystem.step parties s event = some s') :
    Turns parties s event s' := by
  cases event with
  | page e =>
    change (if isAnswer e = true then none else _) = some s' at stepped
    split_ifs at stepped with own
    obtain ⟨page, turned, rfl⟩ := Option.map_eq_some_iff.1 stepped
    exact .page e (Bool.not_eq_true _ ▸ own) page turned
  | arrive k upstream =>
    obtain ⟨question, found, rfl⟩ := Option.map_eq_some_iff.1 stepped
    exact .arrive k question found upstream
  | other request =>
    cases stepped
    exact .other request
  | respond k body => exact reach_turns stepped (fun _ => rfl) fun x _ => .inl ⟨body, rfl, rfl⟩
  | chunk k length => exact reach_turns stepped (fun _ => rfl) fun x _ => .inr (.inl ⟨length, rfl, rfl⟩)
  | close k =>
    change (if _ then _ else _) = some s' at stepped
    split_ifs at stepped with whole
    refine reach_turns stepped (fun _ => rfl) fun x found => .inr (.inr ⟨rfl, rfl, ?_⟩)
    rw [found] at whole
    exact List.isEmpty_iff.1 whole

theorem reached_step {event : Event} (alone : ChatTurns.Reached parties.browser s.page)
    (stepped : ChatSystem.step parties s event = some s') : ChatTurns.Reached parties.browser s'.page := by
  cases step_turns stepped with
  | page e own page turned => exact alone.step turned
  | arrive => exact alone
  | other => exact alone
  | answer event k x found here e answers left page turned part => exact alone.step turned

/-! ### The account of the questions -/

theorem map_reached {α : Type} (f : Exchange → α) {k : Nat} {x : Exchange} (found : s.exchanges[k]? = some x)
    (left : Bytes) (same : f { x with pending := left } = f x) :
    (s.exchanges.set k { x with pending := left }).map f = s.exchanges.map f := by
  have there : (s.exchanges.map f)[k]? = some (f x) := by rw [List.getElem?_map, found, Option.map_some]
  obtain ⟨small, value⟩ := List.getElem?_eq_some_iff.1 there
  rw [List.map_set, same, ← value, List.set_getElem_self]

theorem questions_asks {page page' : Page} (text : Text) (visit : Nat)
    (calls : page'.calls = [asked page text]) :
    questions visit page.controllers page' = [questionOf visit (asked page text)] := by
  unfold questions
  rw [calls]
  have first : page.controllers ≤ (asked page text).controller := Nat.le_refl _
  simp [first, questionOf]

theorem questions_keeps {page page' : Page} (visit : Nat) (counts : Numbered page) {e : ChatSession.Event}
    (calls : ∀ call ∈ page'.calls, ∃ old ∈ page.calls, Carries e old call) :
    questions visit page.controllers page' = [] := by
  unfold questions
  rw [List.map_eq_nil_iff, List.filter_eq_nil_iff]
  intro call member
  obtain ⟨old, there, carries⟩ := calls call member
  have small : call.controller < page.controllers := carries.controller ▸ counts.calls old there
  simp [small]

theorem questions_none {page page' : Page} (visit : Nat) (calls : page'.calls = []) :
    questions visit page.controllers page' = [] := by
  unfold questions
  rw [calls]
  rfl

theorem Waits.carries {e : ChatSession.Event} {old call : Call} (waits : Waits parties s old)
    (carries : Carries e old call) (own : isAnswer e = false) : Waits parties s call := by
  have same := carries.question s.visit
  obtain ⟨awaiting, received⟩ := carries.rests own
  obtain ⟨coming, awaits, none⟩ | ⟨x, there, replying⟩ := waits
  · exact .inl ⟨same ▸ coming, awaiting.trans awaits, received.trans none⟩
  · refine .inr ⟨x, there, replying.question.trans same.symm, received ▸ replying.bytes, fun begun => ?_⟩
    exact replying.begun (awaiting ▸ begun)

namespace Accounted

theorem quiet (accounted : Accounted parties s) {e : ChatSession.Event} {page : Page}
    (none : questions s.visit s.page.controllers page = [])
    (numbered : ∀ q ∈ s.asked, q.visit < s.visit + visits e ∨
      q.visit = s.visit + visits e ∧ q.controller < page.controllers)
    (calls : ∀ call ∈ page.calls, visits e = 0 ∧ Waits parties s call) :
    Accounted parties (s.turned e page) := by
  unfold State.turned
  dsimp only
  rw [none, List.append_nil, List.append_nil]
  refine ⟨accounted.split, accounted.distinct, numbered, fun call member => ?_⟩
  obtain ⟨here, waits⟩ := calls call member
  unfold Waits at waits ⊢
  rwa [here]

theorem turned (accounted : Accounted parties s) (single : Single s.page) (counts : Numbered s.page)
    {e : ChatSession.Event} (own : isAnswer e = false) {page : Page}
    (stepped : ChatSession.step parties.browser s.page e = some page) :
    Accounted parties (s.turned e page) := by
  cases step_continues single stepped with
  | asks text idle calls counted here own =>
    have fresh : (questionOf s.visit (asked s.page text)).key ∉ s.asked.map Question.key := by
      intro old
      obtain ⟨q, member, same⟩ := List.mem_map.1 old
      obtain ⟨visit, controller⟩ := Prod.mk.inj same
      obtain before | ⟨-, small⟩ := accounted.numbered q member
      · exact absurd visit (Nat.ne_of_lt before)
      · exact absurd controller (Nat.ne_of_lt small)
    unfold State.turned
    dsimp only
    rw [questions_asks text s.visit calls, here, Nat.add_zero]
    refine ⟨?_, ?_, ?_, ?_⟩
    · refine (accounted.split.append_right _).trans ?_
      rw [List.append_assoc, List.append_assoc]
      exact List.perm_append_comm.append_left s.wire
    · rw [List.map_append, List.map_singleton]
      exact List.nodup_append.2 ⟨accounted.distinct, List.nodup_singleton _, fun a old b new same => fresh
        (List.mem_singleton.1 new ▸ same ▸ old)⟩
    · intro q member
      obtain old | new := List.mem_append.1 member
      · obtain before | ⟨now, small⟩ := accounted.numbered q old
        · exact .inl before
        · exact .inr ⟨now, counted ▸ Nat.lt_succ_of_lt small⟩
      · obtain rfl := List.mem_singleton.1 new
        exact .inr ⟨rfl, counted ▸ Nat.lt_succ_self _⟩
    · intro call member
      rw [calls, List.mem_singleton] at member
      subst member
      exact .inl ⟨List.mem_append_right _ (List.mem_singleton_self _), rfl, rfl⟩
  | keeps calls counted here =>
    apply accounted.quiet (questions_keeps s.visit counts calls)
    · rw [here, counted]
      exact accounted.numbered
    · intro call member
      obtain ⟨before, there, carries⟩ := calls call member
      exact ⟨here, (accounted.calls before there).carries carries own⟩
  | opens calls again own =>
    apply accounted.quiet (questions_none s.visit calls)
    · intro q member
      left
      obtain before | ⟨now, -⟩ := accounted.numbered q member
      · omega
      · omega
    · intro call member
      rw [calls] at member
      cases member

theorem arrived (accounted : Accounted parties s) {k : Nat} {question : Question}
    (found : s.wire[k]? = some question) (upstream : Upstream) (store : Store) :
    Accounted parties { s with
      wire := s.wire.eraseIdx k
      store
      exchanges := s.exchanges ++
        [⟨question, s.store, upstream, (reply parties question s.store upstream).2⟩] } := by
  obtain ⟨small, rfl⟩ := List.getElem?_eq_some_iff.1 found
  have taken : s.wire.Perm (s.wire[k] :: s.wire.eraseIdx k) := (List.getElem_cons_eraseIdx_perm small).symm
  refine ⟨?_, accounted.distinct, accounted.numbered, fun call member => ?_⟩
  · dsimp only
    refine (accounted.split.trans (taken.append_right _)).trans ?_
    rw [List.map_append, List.map_singleton, List.cons_append, ← List.append_assoc]
    exact (List.perm_append_singleton _ _).symm
  · obtain ⟨coming, awaits, none⟩ | ⟨x, there, replying⟩ := accounted.calls call member
    · obtain now | later := List.mem_cons.1 (taken.mem_iff.1 coming)
      · refine .inr ⟨_, List.mem_append_right _ (List.mem_singleton_self _), now.symm, ?_, fun begun => ?_⟩
        · rw [none]
          rfl
        · exact absurd awaits begun
      · exact .inl ⟨later, awaits, none⟩
    · exact .inr ⟨x, List.mem_append_left _ there, replying⟩

theorem answered (accounted : Accounted parties s) {k : Nat} {x : Exchange}
    (found : s.exchanges[k]? = some x) (here : x.question.visit = s.visit) {left : Bytes} {page : Page}
    (counted : page.controllers = s.page.controllers)
    (moves : ∀ later ∈ page.calls, ∃ call ∈ s.page.calls, call.controller = x.question.controller ∧
      (Replying parties s.visit call x → Replying parties s.visit later { x with pending := left })) :
    Accounted parties (reached s k x left page) := by
  have there := List.mem_of_getElem? found
  refine ⟨?_, accounted.distinct, ?_, fun later member => ?_⟩
  · unfold reached
    dsimp only
    rw [map_reached Exchange.question found left rfl]
    exact accounted.split
  · unfold reached
    rw [counted]
    exact accounted.numbered
  · obtain ⟨call, waiting, controller, moves⟩ := moves later member
    obtain ⟨small, -⟩ := List.getElem?_eq_some_iff.1 found
    exact .inr ⟨_, List.mem_set small _, moves (accounted.replying there here waiting controller)⟩

end Accounted

theorem accounted_step (accounted : Accounted parties s) (alone : ChatTurns.Reached parties.browser s.page)
    {event : Event} (stepped : ChatSystem.step parties s event = some s') : Accounted parties s' := by
  cases step_turns stepped with
  | page e own page turned => exact accounted.turned alone.single alone.numbered own turned
  | arrive k question found upstream => exact accounted.arrived found upstream _
  | other request => exact ⟨accounted.split, accounted.distinct, accounted.numbered, accounted.calls⟩
  | answer event k x found here e answers left page turned part =>
    have moved := step_moves alone.single turned answers
    have counted : page.controllers = s.page.controllers := by
      cases step_continues alone.single turned with
      | asks text idle calls counted here own => cases own.symm.trans answers
      | keeps calls counted here => exact counted
      | opens calls again own => cases own.symm.trans answers
    apply accounted.answered found here counted
    intro later member
    obtain ⟨call, waiting, carries, moves⟩ := moved later member
    have same := carries.question s.visit
    obtain ⟨body, rfl, rfl⟩ | ⟨length, rfl, rfl⟩ | ⟨rfl, rfl, whole⟩ := part
    · obtain ⟨controller, received, success⟩ := moves
      exact ⟨call, waiting, controller, fun replying =>
        ⟨replying.question.trans same.symm, received ▸ replying.bytes, fun _ => success⟩⟩
    · obtain ⟨controller, received, begun⟩ := moves
      refine ⟨call, waiting, controller, fun replying =>
        ⟨replying.question.trans same.symm, ?_, fun _ => replying.begun begun⟩⟩
      rw [received, List.flatten_append, List.flatten_singleton, List.append_assoc]
      dsimp only
      rw [List.take_append_drop]
      exact replying.bytes
    · exact moves.elim

end CppCoder.ChatExchange
