import CppCoder.ChatExchange
import Mathlib.Data.List.Forall2

/-! What the server makes of the questions of the page: none is lost, taken twice or refused, and Ollama is
asked with the history as it is, behind what is known of the user. -/

namespace CppCoder.ChatForwarding
open Support Utf8 Program JsonValue Machine
open JsonText (Text)
open ChatHandlers ServerMemory ChatTurns ChatSystem ChatExchange
open ChatSession (Message Page)
open ChatPage (lit)
open MemoryStore (Store Call next)
open FactExtractor (extractFacts)
open ToldFacts (Knows knows_taught)
open ExtractedFacts (line_extracted)
open EventsFile (encode jsonOf jsonItems)

variable {server : Server} {parties : Parties} {s s' : ChatSystem.State}

def messageJson (m : Message) : Json :=
  .obj [(ascii "content", .str (encode m.content)), (ascii "role", .str (encode m.role.name))]

theorem jsonOf_message (m : Message) : jsonOf m.document.value = messageJson m := by
  have names : encode (lit "role") = ascii "role" ∧ encode (lit "content") = ascii "content" := by decide
  unfold messageJson
  rw [← names.1, ← names.2]
  rfl

theorem jsonItems_messages (messages : List Message) :
    jsonItems (JsonText.valueItems (messages.map Message.document)) = messages.map messageJson := by
  induction messages with
  | nil => rfl
  | cons m rest ih =>
    rw [List.map_cons, JsonText.valueItems, jsonItems, ih, jsonOf_message]
    rfl

theorem jsonOf_request (r : ChatSession.Request) : jsonOf r.document.value =
    .obj [(ascii "messages", .arr (r.messages.map messageJson)), (ascii "model", .str (encode r.model))] := by
  have names : encode (lit "model") = ascii "model" ∧ encode (lit "messages") = ascii "messages" := by decide
  rw [← names.1, ← names.2, ← jsonItems_messages]
  rfl

/-- The JSON library reads the body of a question as what the page wrote. -/
def Heard (server : Server) (q : Question) : Prop :=
  ∃ parsed, parse server q.body = some parsed ∧ parsed.same (jsonOf q.request.document.value) = true

theorem heard_parts {q : Question} (heard : Heard server q) : ∃ parsed items, parse server q.body = some parsed ∧
    parsed.valueJson "messages" (.arr []) = .ok (.arr items) ∧
    List.Forall₂ (fun item m => item.same (messageJson m) = true) items q.request.messages ∧
    parsed.valueStr "model" server.config.defaultModel = .ok (encode q.request.model) := by
  obtain ⟨parsed, parsing, same⟩ := heard
  rw [jsonOf_request] at same
  have listed : Json.valueJson (.obj [(ascii "messages", .arr (q.request.messages.map messageJson)),
      (ascii "model", .str (encode q.request.model))]) "messages" (.arr []) =
        .ok (.arr (q.request.messages.map messageJson)) := by
    simp [Json.valueJson, Json.member]
  obtain ⟨items, read, alike⟩ := valueItems_same same listed
  refine ⟨parsed, items, parsing, read, List.forall₂_map_right_iff.1 alike, ?_⟩
  have distinct : (ascii "model" == ascii "messages") = false := by decide
  rw [valueStr_same same]
  simp [Json.valueStr, Json.member, List.lookup_cons, distinct]

theorem latest_user {items : List Json} {earlier : List Message} {text : Text}
    (alike : List.Forall₂ (fun item m => item.same (messageJson m) = true) items
      (earlier ++ [⟨.user, text⟩])) : latest (.arr items) = .ok (some (encode text)) := by
  rw [← List.forall₂_reverse_iff, List.reverse_append, List.reverse_singleton, List.singleton_append,
    List.forall₂_cons_right_iff] at alike
  obtain ⟨item, rest, same, -, reversed⟩ := alike
  obtain rfl : items = rest.reverse ++ [item] := by
    rw [← List.reverse_reverse items, reversed, List.reverse_cons]
  have distinct : (ascii "role" == ascii "content") = false := by decide
  have role : item.valueStr "role" [] = .ok (ascii "user") := by
    rw [valueStr_same same, ← show encode (lit "user") = ascii "user" by decide]
    simp [messageJson, Json.valueStr, Json.member, List.lookup_cons, distinct, ChatSession.Role.name]
  have content : item.valueStr "content" [] = .ok (encode text) := by
    rw [valueStr_same same]
    simp [messageJson, Json.valueStr, Json.member]
  have some : isEmpty (.arr (rest.reverse ++ [item])) = false := by simp [isEmpty]
  have last : back (.arr (rest.reverse ++ [item])) = item := by simp [back]
  unfold latest
  rw [some, last, role]
  simp [content, Except.map]

def factsMessage (facts : List Bytes) : List Json := if facts = [] then [] else [systemMessage facts]

theorem runs_withFacts_list {facts : List Bytes} {items : List Json} {store : Store}
    {done : Json → Store → Prop} {failed : HandlerError → Store → Prop}
    (holds : done (.arr (factsMessage facts ++ items)) store) :
    Runs (withFacts facts (.arr items)) store done failed := by
  unfold withFacts
  unfold factsMessage at holds
  split_ifs at holds ⊢
  · exact holds
  · exact holds

theorem runs_question {store : Store} (sendable : Sendable store) {q : Question} {items : List Json}
    {parsed : Json} {earlier : List Message} {text : Text}
    (parsing : parse server q.body = some parsed)
    (listed : parsed.valueJson "messages" (.arr []) = .ok (.arr items))
    (alike : List.Forall₂ (fun item m => item.same (messageJson m) = true) items q.request.messages)
    (named : parsed.valueStr "model" server.config.defaultModel = .ok (encode q.request.model))
    (ends : q.request.messages = earlier ++ [⟨.user, text⟩]) :
    Runs (postChat server q.body) store (fun response store' =>
      response = .stream (ascii "/api/chat")
        (chatBody (encode q.request.model) (.arr (factsMessage store'.facts ++ items))) ∧
      store' = after server store (.chat q.body) ∧ said server q.body = some (encode text))
      fun _ _ => False := by
  have heard : latest (.arr items) = .ok (some (encode text)) := latest_user (ends ▸ alike)
  have teaches := said_of parsing listed heard
  have taught : ∀ f ∈ extractFacts (encode text), Valid f :=
    fun f member => valid_of_ascii (line_extracted member).small
  have now : ((extractFacts (encode text)).map Call.add).foldl (next server.setting) store =
      after server store (.chat q.body) := by
    rw [after_chat, teaches]
    rfl
  unfold postChat
  rw [withBody_some parsing]
  apply Runs.bind
  apply runs_value
  · intro messages found
    cases listed.symm.trans found
    apply Runs.bind
    apply runs_value
    · intro latest found
      cases heard.symm.trans found
      apply Runs.bind
      refine (runs_learn _ sendable taught).imp (fun _ store' learned => ?_) fun _ _ impossible => impossible
      apply Runs.bind
      refine Runs.get (Runs.bind (runs_withFacts_list (Runs.bind (runs_value ?_ ?_))))
      · intro model found
        cases named.symm.trans found
        exact ⟨rfl, learned.1.trans now, teaches⟩
      · intro e failed
        cases named.symm.trans failed
    · intro e failed
      cases heard.symm.trans failed
  · intro e failed
    cases listed.symm.trans failed

/-- What an exchange asks of Ollama: the model of the page, and its messages as they are, behind the one that
lists the facts, with all that the last of them teaches. -/
def Sent (server : Server) (x : Exchange) : Prop :=
  ∃ items store text,
    handle server (.chat x.question.body) x.before = .ok (.stream (ascii "/api/chat")
      (chatBody (encode x.question.request.model) (.arr (factsMessage store.facts ++ items)))) store ∧
    List.Forall₂ (fun item m => item.same (messageJson m) = true) items x.question.request.messages ∧
    x.question.request.messages.getLast? = some ⟨.user, text⟩ ∧
    ∀ fact ∈ extractFacts (encode text), Knows store.facts fact

theorem sent_of_heard {x : Exchange} (sendable : Sendable x.before) (heard : Heard server x.question)
    {earlier : List Message} {text : Text} (ends : x.question.request.messages = earlier ++ [⟨.user, text⟩]) :
    Sent server x := by
  obtain ⟨parsed, items, parsing, listed, alike, named⟩ := heard_parts heard
  have runs := runs_question sendable parsing listed alike named ends
  have last : x.question.request.messages.getLast? = some ⟨.user, text⟩ := by
    rw [ends]
    exact List.getLast?_concat
  cases result : postChat server x.question.body x.before with
  | error e store => exact (runs.error result).elim
  | ok response store =>
    obtain ⟨rfl, made, teaches⟩ := runs.ok result
    refine ⟨items, store, text, result, alike, last, fun fact taught => ?_⟩
    rw [made]
    exact knows_taught server x.before teaches taught

/-! ### Runs of the system -/

/-- The system when the page is opened and the server has read its memory. -/
def begun (server : Server) (file : Option Bytes) (page : Page) : ChatSystem.State :=
  { page, store := MemoryStore.opened server.setting.codec.parser file }

structure Lived (server : Server) (file : Option Bytes) (s : ChatSystem.State) : Prop where
  store : ∃ requests, s.store = served server file requests
  before : ∀ x ∈ s.exchanges, ∃ requests, x.before = served server file requests
  ends : ∀ q ∈ s.asked, ∃ earlier text, q.request.messages = earlier ++ [⟨.user, text⟩]

theorem fresh_questions (single : Single s.page) (counts : Numbered s.page) {e : ChatSession.Event}
    {page : Page} {browser : ChatSession.Browser}
    (stepped : ChatSession.step browser s.page e = some page) :
    questions s.visit s.page.controllers page = [] ∨ ∃ text, page.calls = [asked s.page text] ∧
      questions s.visit s.page.controllers page = [questionOf s.visit (asked s.page text)] := by
  cases step_continues single stepped with
  | asks text idle calls => exact .inr ⟨text, calls, questions_asks text s.visit calls⟩
  | keeps calls => exact .inl (questions_keeps s.visit counts calls)
  | opens calls => exact .inl (questions_none s.visit calls)

theorem lived_step {file : Option Bytes} (lived : Lived parties.server file s)
    (alone : ChatTurns.Reached parties.browser s.page) {event : Event}
    (stepped : ChatSystem.step parties s event = some s') : Lived parties.server file s' := by
  obtain ⟨requests, now⟩ := lived.store
  have later : ∀ request, serve parties.server s.store request =
      served parties.server file (requests ++ [request]) := by
    intro request
    rw [now, served_append]
    rfl
  cases step_turns stepped with
  | page e own page turned =>
    refine ⟨lived.store, lived.before, fun q member => ?_⟩
    obtain old | new := List.mem_append.1 member
    · exact lived.ends q old
    · obtain none | ⟨text, -, one⟩ := fresh_questions alone.single alone.numbered turned
      · rw [none] at new
        cases new
      · rw [one, List.mem_singleton] at new
        exact ⟨s.page.history, text, by rw [new]; rfl⟩
  | arrive k question found upstream =>
    refine ⟨⟨_, later (.chat question.body)⟩, fun x member => ?_, lived.ends⟩
    obtain old | new := List.mem_append.1 member
    · exact lived.before x old
    · exact ⟨requests, by rw [List.mem_singleton.1 new, ← now]⟩
  | other request => exact ⟨⟨_, later request⟩, lived.before, lived.ends⟩
  | answer event k x found here e answers left page turned part =>
    refine ⟨lived.store, fun y member => ?_, lived.ends⟩
    obtain old | new := List.mem_or_eq_of_mem_set member
    · exact lived.before y old
    · rw [new]
      exact lived.before x (List.mem_of_getElem? found)

/-- What holds of the system in every run. -/
structure Sound (parties : Parties) (file : Option Bytes) (s : ChatSystem.State) : Prop where
  alone : ChatTurns.Reached parties.browser s.page
  accounted : Accounted parties s
  lived : Lived parties.server file s

theorem sound_begun {file : Option Bytes} {stored storedModel : Option Text} {showUncensored : Bool}
    {first : Page} (open_ : ChatSession.opened stored storedModel showUncensored = some first) :
    Sound parties file (begun parties.server file first) := by
  have idle := single_opened open_
  refine ⟨⟨stored, storedModel, showUncensored, first, [], open_, rfl⟩, ?_, ?_⟩
  · refine ⟨List.Perm.refl _, List.nodup_nil, List.forall_mem_nil _, fun call member => ?_⟩
    change call ∈ first.calls at member
    rw [idle.calls] at member
    cases member
  · exact ⟨⟨[], rfl⟩, List.forall_mem_nil _, List.forall_mem_nil _⟩

theorem sound_step {file : Option Bytes} (sound : Sound parties file s) {event : Event}
    (stepped : ChatSystem.step parties s event = some s') : Sound parties file s' :=
  ⟨reached_step sound.alone stepped, accounted_step sound.accounted sound.alone stepped,
    lived_step sound.lived sound.alone stepped⟩

/-- Every question that is ever asked is on its way or was taken by the server once, and for one that it took
and could read, Ollama is asked with all messages of the page as they are, behind all that is known. -/
theorem questions_sent (parties : Parties) (clean : Clean parties.server) (file : Option Bytes)
    {stored storedModel : Option Text} {showUncensored : Bool} {first : Page} {events : List Event}
    {s : ChatSystem.State} (open_ : ChatSession.opened stored storedModel showUncensored = some first)
    (ran : run (ChatSystem.step parties) (begun parties.server file first) events = some s) :
    s.asked.Perm (s.wire ++ s.exchanges.map Exchange.question) ∧ (s.asked.map Question.key).Nodup ∧
      ∀ x ∈ s.exchanges, Heard parties.server x.question → Sent parties.server x := by
  have sound : Sound parties file s :=
    run_invariant (Sound parties file) (fun _ _ _ sound stepped => sound_step sound stepped) (sound_begun open_)
      ran
  refine ⟨sound.accounted.split, sound.accounted.distinct, fun x member heard => ?_⟩
  obtain ⟨requests, found⟩ := sound.lived.before x member
  have asked : x.question ∈ s.asked :=
    sound.accounted.split.mem_iff.2 (List.mem_append_right _ (List.mem_map_of_mem member))
  obtain ⟨earlier, text, ends⟩ := sound.lived.ends x.question asked
  have sendable : Sendable x.before := by
    rw [found]
    exact (served_reached clean file requests).2
  exact sent_of_heard sendable heard ends

def agedRequest : ChatSession.Request := ⟨lit "m", [⟨.user, lit "I'm 30 yo"⟩]⟩

def agedTable : List (Bytes × Json) := [(encode agedRequest.body, jsonOf agedRequest.document.value)]

theorem agedTable_dumpable : ∀ entry ∈ agedTable, entry.2.dumpable = true := by decide +kernel

def listening : Server where
  setting := {
    codec := {
      parser := .table agedTable agedTable_dumpable
      dump := compact }
    path := Paths.ofBytes (ascii "memory.json")
    faults := fun _ => .none }
  config := {}
  hardware := {}
  explain := fun _ => []

theorem listening_clean : Clean listening := ⟨valid_ascii _, valid_ascii _⟩

def visiting : Parties := ⟨steady, listening, compact⟩

def greetingLines : List Bytes :=
  [ascii "\x7b\"message\":\x7b\"content\":\"Hel\"\x7d\x7d\n", ascii "\x7b\"message\":\x7b\"content\":\"lo\"\x7d\x7d\n"]

def visit : List Event :=
  [.page (.loaded 0 (.listed oneModel)), .page (.send (lit "I'm 30 yo")),
    .arrive 0 (.answers 200 greetingLines .complete), .respond 0 true, .chunk 0 7, .chunk 0 100, .close 0]

def visited : ChatSystem.State :=
  (run (ChatSystem.step visiting) (begun listening none firstPage) visit).get (by decide +kernel)

theorem visited_eq : run (ChatSystem.step visiting) (begun visiting.server none firstPage) visit = some visited :=
  (Option.some_get _).symm

theorem visited_heard : ∀ x ∈ visited.exchanges, Heard listening x.question := by
  have read : visited.exchanges.all (fun x => (parse listening x.question.body).any fun parsed =>
      parsed.same (jsonOf x.question.request.document.value)) = true := by decide +kernel
  intro x member
  exact (Option.any_eq_true _ _).1 (List.all_eq_true.1 read x member)

theorem questions_sent_visited :
    visited.asked.Perm (visited.wire ++ visited.exchanges.map Exchange.question) ∧
      (visited.asked.map Question.key).Nodup ∧ ∀ x ∈ visited.exchanges, Sent listening x := by
  obtain ⟨split, distinct, sent⟩ := questions_sent visiting listening_clean none firstPage_eq visited_eq
  exact ⟨split, distinct, fun x member => sent x member (visited_heard x member)⟩

example : visited.page.history = [⟨.user, lit "I'm 30 yo"⟩, ⟨.assistant, lit "Hello"⟩] ∧
    visited.exchanges.map Exchange.question = visited.asked ∧
    visited.store.facts = [ascii "The user is 30 years old."] := by decide +kernel

end CppCoder.ChatForwarding
