import CppCoder.ChatHandlers
import CppCoder.Durability
import CppCoder.ExtractedFacts

/-! The memory of the chat server over all requests: it is a store that certain calls are made to, and all
that is in it can be sent. -/

namespace CppCoder.ServerMemory
open Support Utf8 JsonValue Program ChatHandlers
open MemoryStore (Store Setting Call next changed reached)
open FactExtractor (extractFacts)
open ExtractedFacts (line_extracted)
open Durability (text valid_changed valid_load)

/-! ### What a request does to the memory -/

variable (server : Server)

def parse (body : Bytes) : Option Json := server.setting.codec.parser.parse body

def namedFact (body : Bytes) : Option Bytes :=
  (parse server body).bind fun parsed => (parsed.valueStr "fact" []).toOption

/-- What the user says in the last message of a body. -/
def said (body : Bytes) : Option Bytes :=
  (parse server body).bind fun parsed =>
    (parsed.valueJson "messages" (.arr [])).toOption.bind fun messages => (latest messages).toOption.join

/-- The calls of the memory that a request makes. -/
def callsOf : Request → List Call
  | .addFact body => ((namedFact server body).map Call.add).toList
  | .removeFact body => ((namedFact server body).map Call.remove).toList
  | .chat body => ((said server body).elim [] extractFacts).map .add
  | _ => []

/-- The texts that a server writes itself are UTF-8. -/
structure Clean : Prop where
  defaultModel : Valid server.config.defaultModel
  ollamaHost : Valid server.config.ollamaHost

/-- All facts are UTF-8. -/
def Sendable (store : Store) : Prop := ∀ f ∈ store.facts, Valid f

def Response.dumpable : Response → Bool
  | .content _ body => body.dumpable
  | .stream _ out => out.dumpable

def Request.body : Request → Option Bytes
  | .pull body => some body
  | .addFact body => some body
  | .removeFact body => some body
  | .chat body => some body
  | _ => none

/-- A body that is no JSON, for which the library finds words that are not UTF-8. -/
def Unsayable (request : Request) : Prop :=
  ∃ body, Request.body request = some body ∧ parse server body = none ∧ ¬ Valid (server.explain body)

variable {server : Server} {store : Store}

theorem call_ok (setting : Setting) (sendable : Sendable store) {made : Call} (utf8 : Valid (text made)) :
    ∃ b, MemoryStore.call setting made store = .ok b (next setting store made) := by
  have fits := (MemoryStore.document_dumpable _).2 (valid_changed sendable utf8)
  have saves : ∀ facts, (MemoryStore.document facts).dumpable = true →
      ∃ after, (MemoryStore.saveLocked setting >>= fun _ => pure true) { store with facts := facts } =
        .ok true after := by
    intro facts clean
    rw [bind_run, MemoryStore.saveLocked_run]
    dsimp only
    rw [if_pos clean]
    split_ifs
    · exact ⟨_, rfl⟩
    · exact ⟨_, rfl⟩
  have final : ∀ {b : Bool} {after : Store}, MemoryStore.call setting made store = .ok b after →
      next setting store made = after := by
    intro b after run
    unfold next
    rw [run]
    rfl
  cases made with
  | add fact =>
    have run := MemoryStore.addFact_run setting fact store
    change MemoryStore.call setting (.add fact) store = _ at run
    simp only [changed] at fits
    split_ifs at run fits with refused
    · exact ⟨false, by rw [final run, run]⟩
    · obtain ⟨after, saved⟩ := saves _ fits
      rw [saved] at run
      exact ⟨true, by rw [final run, run]⟩
  | remove fact =>
    have run := MemoryStore.removeFact_run setting fact store
    change MemoryStore.call setting (.remove fact) store = _ at run
    simp only [changed] at fits
    split_ifs at run fits with found none none
    · exact absurd none found.1
    · obtain ⟨after, saved⟩ := saves _ fits
      rw [saved] at run
      exact ⟨true, by rw [final run, run]⟩
    · exact ⟨false, by rw [final run, run]⟩
    · exact ⟨false, by rw [final run, run]⟩

theorem sendable_next {setting : Setting} (sendable : Sendable store) {made : Call} (utf8 : Valid (text made)) :
    Sendable (next setting store made) := by
  intro f member
  rw [MemoryStore.next_facts] at member
  exact valid_changed sendable utf8 f member

theorem runs_memory {setting : Setting} (sendable : Sendable store) {made : Call} (utf8 : Valid (text made)) :
    Runs (memory (MemoryStore.call setting made)) store
      (fun _ store' => store' = next setting store made) fun _ _ => False := by
  obtain ⟨b, run⟩ := call_ok setting sendable utf8
  unfold Runs memory
  rw [run]

theorem sendable_opened (parser : Parser) (file : Option Bytes) :
    Sendable (MemoryStore.opened parser file) := valid_load parser file

/-! ### Handlers -/

theorem runs_value {α : Type} {result : Except JsonError α} {done : α → Store → Prop}
    {failed : HandlerError → Store → Prop} (onOk : ∀ a, result = .ok a → done a store)
    (onError : ∀ e, result = .error e → failed (.json e) store) : Runs (value result) store done failed := by
  cases result with
  | ok a => exact onOk a rfl
  | error e => exact onError e rfl

theorem runs_respond {status : Nat} {body : Json} {done : Response → Store → Prop}
    {failed : HandlerError → Store → Prop} (onOk : body.dumpable = true → done (.content status body) store)
    (onError : body.dumpable = false → failed .dump store) : Runs (respond status body) store done failed := by
  unfold respond
  split_ifs with clean
  · exact onOk clean
  · exact onError (Bool.not_eq_true _ ▸ clean)

def after (server : Server) (store : Store) (request : Request) : Store :=
  (callsOf server request).foldl (next server.setting) store

/-- How a request may end: its calls are made, and only a body that cannot be explained makes `dump` throw. -/
def Ends (server : Server) (store : Store) (request : Request) (handler : Handler Response) : Prop :=
  Runs handler store
    (fun response store' => store' = after server store request ∧ Response.dumpable response = true)
    fun e store' => store' = after server store request ∧ (e = .dump → Unsayable server request)

theorem withBody_none {body : Bytes} {handle : Json → Handler Response} (parsing : parse server body = none) :
    withBody server body handle = respond 400 (errorBody (ascii "invalid JSON body: " ++ server.explain body)) := by
  unfold withBody
  rw [show server.setting.codec.parser.parse body = none from parsing]

theorem withBody_some {body : Bytes} {handle : Json → Handler Response} {parsed : Json}
    (parsing : parse server body = some parsed) : withBody server body handle = handle parsed := by
  unfold withBody
  rw [show server.setting.codec.parser.parse body = some parsed from parsing]

theorem ends_withBody {request : Request} {body : Bytes} (named : Request.body request = some body)
    {handle : Json → Handler Response}
    (none : parse server body = none → callsOf server request = [])
    (some : ∀ parsed, parse server body = some parsed → parsed.dumpable = true →
      Ends server store request (handle parsed)) :
    Ends server store request (withBody server body handle) := by
  cases parsing : parse server body with
  | some parsed =>
    rw [withBody_some parsing]
    exact some parsed parsing (server.setting.codec.parser.dumpable body parsed parsing)
  | none =>
    rw [withBody_none parsing]
    have unchanged : store = after server store request := by
      unfold after
      rw [none parsing]
      rfl
    refine runs_respond (fun clean => ⟨unchanged, clean⟩) fun unclean => ⟨unchanged, fun _ => ?_⟩
    refine ⟨body, named, parsing, fun valid => ?_⟩
    have clean : (errorBody (ascii "invalid JSON body: " ++ server.explain body)).dumpable = true := by
      simp [errorBody, valid]
    cases clean.symm.trans unclean

theorem namedFact_of {body fact : Bytes} {parsed : Json} (parsing : parse server body = some parsed)
    (found : parsed.valueStr "fact" [] = .ok fact) : namedFact server body = some fact := by
  unfold namedFact
  rw [parsing, Option.bind_some, found]
  rfl

theorem namedFact_none {body : Bytes} {parsed : Json} {e : JsonError}
    (parsing : parse server body = some parsed) (found : parsed.valueStr "fact" [] = .error e) :
    namedFact server body = none := by
  unfold namedFact
  rw [parsing, Option.bind_some, found]
  rfl

theorem runs_allFacts (sendable : Sendable store) {request : Request} {earlier : Store}
    (made : store = after server earlier request) :
    Runs allFacts store
      (fun response store' => store' = after server earlier request ∧ Response.dumpable response = true)
      fun e store' => store' = after server earlier request ∧ (e = .dump → Unsayable server request) := by
  have clean := (MemoryStore.document_dumpable store.facts).2 sendable
  apply Runs.bind
  refine Runs.get (runs_respond (fun clean => ⟨made, clean⟩) fun unclean => ?_)
  cases clean.symm.trans unclean

theorem ends_change (sendable : Sendable store) {request : Request} {body : Bytes} (made : Bytes → Call)
    (named : Request.body request = some body) (texts : ∀ fact, text (made fact) = fact)
    (calls : callsOf server request = ((namedFact server body).map made).toList) :
    Ends server store request (withBody server body fun parsed => do
      let fact ← value (parsed.valueStr "fact" [])
      let _ ← memory (MemoryStore.call server.setting (made fact))
      allFacts) := by
  apply ends_withBody named
  · intro none
    rw [calls, namedFact, none]
    rfl
  · intro parsed parsing clean
    apply Runs.bind
    apply runs_value
    · intro fact found
      have utf8 : Valid (text (made fact)) := by
        rw [texts]
        exact valid_valueStr clean valid_nil found
      apply Runs.bind
      refine (runs_memory sendable utf8).imp (fun _ store' done => ?_) fun _ _ impossible => impossible.elim
      subst done
      apply runs_allFacts (sendable_next sendable utf8)
      unfold after
      rw [calls, namedFact_of parsing found]
      rfl
    · intro e failed
      refine ⟨?_, fun other => by cases other⟩
      unfold after
      rw [calls, namedFact_none parsing failed]
      rfl

theorem runs_learn (facts : List Bytes) (sendable : Sendable store) (valid : ∀ f ∈ facts, Valid f) :
    Runs (learn server facts) store
      (fun _ store' => store' = (facts.map Call.add).foldl (next server.setting) store ∧ Sendable store')
      fun _ _ => False := by
  induction facts generalizing store with
  | nil => exact ⟨rfl, sendable⟩
  | cons fact rest ih =>
    have utf8 : Valid (text (.add fact)) := valid fact List.mem_cons_self
    have run : learn server (fact :: rest) =
        ((memory (MemoryStore.call server.setting (.add fact)) >>= fun _ => pure ()) >>= fun _ =>
          learn server rest) := rfl
    rw [run]
    apply Runs.bind
    apply Runs.bind
    refine (runs_memory sendable utf8).imp (fun _ store' done => ?_) fun _ _ impossible => impossible.elim
    subst done
    exact ih (sendable_next sendable utf8) fun f member => valid f (List.mem_cons_of_mem _ member)

/-- The messages that are sent on: those of the client, behind one that lists the facts, if there are any. -/
inductive Forwards (facts : List Bytes) (messages : Json) : Json → Prop where
  | plain (none : facts = []) : Forwards facts messages messages
  | listed (items : List Json) (some : facts ≠ []) (array : messages = .arr items) :
      Forwards facts messages (.arr (systemMessage facts :: items))

/-- What a chat request asks of Ollama. -/
structure Asks (server : Server) (body : Bytes) (facts : List Bytes) (path : Bytes) (out : Json) : Prop where
  path : path = ascii "/api/chat"
  split : ∃ parsed messages model forwarded, parse server body = some parsed ∧
    parsed.valueJson "messages" (.arr []) = .ok messages ∧
    parsed.valueStr "model" server.config.defaultModel = .ok model ∧
    Forwards facts messages forwarded ∧ out = chatBody model forwarded

theorem said_of {body : Bytes} {parsed messages : Json} {heard : Option Bytes}
    (parsing : parse server body = some parsed)
    (listed : parsed.valueJson "messages" (.arr []) = .ok messages) (found : latest messages = .ok heard) :
    said server body = heard := by
  unfold said
  rw [parsing, Option.bind_some, listed]
  change (latest messages).toOption.join = heard
  rw [found]
  rfl

theorem dumpable_withFacts {facts : List Bytes} {messages forwarded : Json} (valid : ∀ f ∈ facts, Valid f)
    (clean : messages.dumpable = true) (forwards : Forwards facts messages forwarded) :
    forwarded.dumpable = true := by
  have content : Valid (systemContent facts) := by
    unfold systemContent
    rw [valid_ascii_append]
    apply valid_flatMap
    intro f member
    rw [valid_append_ascii, valid_ascii_append]
    exact valid f member
  cases forwards with
  | plain none => exact clean
  | listed items some array =>
    subst array
    rw [dumpable_arr] at clean ⊢
    intro item member
    obtain rfl | old := List.mem_cons.1 member
    · simp [systemMessage, content]
    · exact clean item old

theorem runs_withFacts {facts : List Bytes} {messages : Json} {done : Json → Store → Prop}
    {failed : HandlerError → Store → Prop}
    (onOk : ∀ forwarded, Forwards facts messages forwarded → done forwarded store)
    (onError : failed .insert store) : Runs (withFacts facts messages) store done failed := by
  unfold withFacts
  split_ifs with none
  · exact onOk messages (.plain none)
  · cases messages with
    | arr items => exact onOk _ (.listed items none rfl)
    | _ => exact onError

theorem after_chat (body : Bytes) : after server store (.chat body) =
    (((said server body).elim [] extractFacts).map Call.add).foldl (next server.setting) store := rfl

theorem runs_chat (clean : Clean server) (sendable : Sendable store) (body : Bytes) :
    Runs (postChat server body) store
      (fun response store' => (store' = after server store (.chat body) ∧ Response.dumpable response = true) ∧
        ∀ path out, response = .stream path out → Asks server body store'.facts path out)
      fun e store' => store' = after server store (.chat body) ∧ (e = .dump → Unsayable server (.chat body)) := by
  have silent : said server body = none → after server store (.chat body) = store := by
    intro none
    rw [after_chat, none]
    rfl
  unfold postChat
  cases parsing : parse server body with
  | none =>
    rw [withBody_none parsing]
    have unchanged := silent (by rw [said, parsing]; rfl)
    refine runs_respond (fun clean => ⟨⟨unchanged.symm, clean⟩, fun _ _ other => by cases other⟩)
      fun unclean => ⟨unchanged.symm, fun _ => ⟨body, rfl, parsing, fun valid => ?_⟩⟩
    have fine : (errorBody (ascii "invalid JSON body: " ++ server.explain body)).dumpable = true := by
      simp [errorBody, valid]
    cases fine.symm.trans unclean
  | some parsed =>
    rw [withBody_some parsing]
    have whole := server.setting.codec.parser.dumpable body parsed parsing
    apply Runs.bind
    apply runs_value
    · intro messages listed
      apply Runs.bind
      apply runs_value
      · intro heard found
        have teaches := said_of parsing listed found
        have fine := dumpable_valueJson whole (by simp) listed
        have taught : ∀ f ∈ heard.elim [] extractFacts, Valid f := by
          intro f member
          cases heard with
          | none => cases member
          | some message => exact valid_of_ascii (line_extracted member).small
        have now : ((heard.elim [] extractFacts).map Call.add).foldl (next server.setting) store =
            after server store (.chat body) := by
          rw [after_chat, teaches]
        apply Runs.bind
        refine (runs_learn _ sendable taught).imp (fun _ store' done => ?_) fun _ _ impossible => impossible.elim
        obtain ⟨learned, sendable'⟩ := done
        rw [now] at learned
        apply Runs.bind
        refine Runs.get (Runs.bind (runs_withFacts (fun forwarded forwards => ?_) ?_))
        · apply Runs.bind
          apply runs_value
          · intro model named
            refine ⟨⟨learned, ?_⟩, fun path out same => ?_⟩
            · have utf8 := valid_valueStr whole clean.defaultModel named
              have carried := dumpable_withFacts sendable' fine forwards
              simp [Response.dumpable, chatBody, utf8, carried]
            · cases same
              exact ⟨rfl, parsed, messages, model, forwarded, parsing, listed, named, forwards, rfl⟩
          · exact fun e _ => ⟨learned, fun other => by cases other⟩
        · exact ⟨learned, fun other => by cases other⟩
      · intro e failed
        have unchanged := silent (by rw [said, parsing, Option.bind_some, listed]; simp [Except.toOption, failed])
        exact ⟨unchanged.symm, fun other => by cases other⟩
    · intro e failed
      have unchanged := silent (by rw [said, parsing, Option.bind_some, failed]; rfl)
      exact ⟨unchanged.symm, fun other => by cases other⟩

theorem ends_pull (body : Bytes) : Ends server store (.pull body) (postPull server body) := by
  apply ends_withBody rfl fun _ => rfl
  intro parsed parsing clean
  apply Runs.bind
  apply runs_value
  · intro model found
    have utf8 := valid_valueStr clean valid_nil found
    split_ifs
    · refine runs_respond (fun fine => ⟨rfl, fine⟩) fun unclean => ?_
      have fine : (errorBody (ascii "missing 'model'")).dumpable = true := by simp [errorBody]
      cases fine.symm.trans unclean
    · exact ⟨rfl, by simp [Response.dumpable, utf8]⟩
  · exact fun e failed => ⟨rfl, fun other => by cases other⟩

theorem valid_pulledNames {entries : List Json} (clean : ∀ entry ∈ entries, entry.dumpable = true)
    {pulled : List Bytes} (valid : ∀ name ∈ pulled, Valid name) :
    ∀ name ∈ pulledNames pulled entries, Valid name := by
  induction entries generalizing pulled with
  | nil => exact valid
  | cons m rest ih =>
    unfold pulledNames
    cases found : m.valueStr "name" [] with
    | error e => exact valid
    | ok name =>
      have utf8 := valid_valueStr (clean m List.mem_cons_self) valid_nil found
      apply ih fun other member => clean other (List.mem_cons_of_mem _ member)
      intro other member
      obtain old | new := List.mem_append.1 member
      · exact valid other old
      · exact List.mem_singleton.1 new ▸ utf8

theorem valid_listedModels (server : Server) (body : Bytes) :
    ∀ name ∈ listedModels server body, Valid name := by
  intro name member
  unfold listedModels at member
  cases parsing : server.setting.codec.parser.parse body with
  | none => simp [parsing] at member
  | some parsed =>
    have whole := server.setting.codec.parser.dumpable body parsed parsing
    cases listed : parsed.valueJson "models" (.arr []) with
    | error e => simp [parsing, listed] at member
    | ok models =>
      simp only [parsing, listed] at member
      have entries := dumpable_items (dumpable_valueJson whole (by simp) listed)
      exact valid_pulledNames entries (by simp) name member

theorem valid_toText (n : Int) : Valid (toText n) := by
  unfold toText
  split_ifs
  · simp
  · simp

theorem dumpable_suggestionBody (hardware : HardwareInfo) {s : ModelSuggestion} (member : s ∈ suggestedModels) :
    (suggestionBody hardware s).dumpable = true := by
  have named : Valid s.name := by
    simp only [suggestedModels, List.mem_cons, List.not_mem_nil, or_false] at member
    rcases member with rfl | rfl | rfl | rfl | rfl | rfl | rfl | rfl | rfl | rfl | rfl <;>
      exact valid_ascii _
  have category : Valid s.category.name := by cases s.category <;> exact valid_ascii _
  simp [suggestionBody, named, category]

theorem dumpable_modelsBody (clean : Clean server) (reached : Bool) {pulled : List Bytes}
    (valid : ∀ name ∈ pulled, Valid name) : (modelsBody server reached pulled).dumpable = true := by
  have names : (Json.arr (pulled.map .str)).dumpable = true := by
    rw [dumpable_arr]
    intro item member
    obtain ⟨name, there, rfl⟩ := List.mem_map.1 member
    exact (dumpable_str name).2 (valid name there)
  have suggestions : (Json.arr ((suggested pulled).map (suggestionBody server.hardware))).dumpable = true := by
    rw [dumpable_arr]
    intro item member
    obtain ⟨s, there, rfl⟩ := List.mem_map.1 member
    exact dumpable_suggestionBody _ (List.mem_of_mem_filter there)
  have words : Valid (unreachable server) := by
    unfold unreachable
    rw [valid_append_ascii]
    exact Valid.append (by simp [clean.ollamaHost]) (valid_toText _)
  unfold modelsBody
  cases reached with
  | true => simp [clean.defaultModel, names, suggestions]
  | false => simp [clean.defaultModel, names, suggestions, words]

theorem ends_models (clean : Clean server) (tags : Option (Nat × Bytes)) :
    Ends server store (.models tags) (getModels server tags) := by
  have sent : ∀ (status : Nat) (reached : Bool) (pulled : List Bytes), (∀ name ∈ pulled, Valid name) →
      Ends server store (.models tags) (respond status (modelsBody server reached pulled)) := by
    intro status reached pulled valid
    refine runs_respond (fun fine => ⟨rfl, fine⟩) fun unclean => ?_
    cases (dumpable_modelsBody clean reached valid).symm.trans unclean
  unfold getModels
  split
  · exact sent 200 true _ (valid_listedModels server _)
  · exact sent 502 false [] (by simp)

theorem handle_ends (clean : Clean server) (sendable : Sendable store) (request : Request) :
    Ends server store request (handle server request) := by
  cases request with
  | models tags => exact ends_models clean tags
  | pull body => exact ends_pull body
  | facts => exact runs_allFacts sendable rfl
  | addFact body => exact ends_change sendable Call.add rfl (fun _ => rfl) rfl
  | removeFact body => exact ends_change sendable Call.remove rfl (fun _ => rfl) rfl
  | chat body =>
    exact (runs_chat clean sendable body).weaken fun _ _ done => done.1

/-! ### All requests -/

theorem Ends.final {request : Request} {handler : Handler Response}
    (ends : Ends server store request handler) : finalState (handler store) = after server store request := by
  unfold Ends Runs at ends
  cases run : handler store with
  | ok response store' =>
    rw [run] at ends
    exact ends.1
  | error e store' =>
    rw [run] at ends
    exact ends.1

theorem valid_calls {request : Request} {made : Call} (member : made ∈ callsOf server request) :
    Valid (text made) := by
  have named : ∀ {body fact : Bytes}, namedFact server body = some fact → Valid fact := by
    intro body fact found
    obtain ⟨parsed, parsing, taken⟩ := Option.bind_eq_some_iff.1 found
    have whole := server.setting.codec.parser.dumpable body parsed parsing
    cases value : parsed.valueStr "fact" [] with
    | error e => simp [value, Except.toOption] at taken
    | ok other =>
      rw [value] at taken
      cases taken
      exact valid_valueStr whole valid_nil value
  cases request with
  | addFact body =>
    obtain ⟨fact, found, rfl⟩ := Option.map_eq_some_iff.1 (Option.mem_toList.1 member)
    exact named found
  | removeFact body =>
    obtain ⟨fact, found, rfl⟩ := Option.map_eq_some_iff.1 (Option.mem_toList.1 member)
    exact named found
  | chat body =>
    obtain ⟨fact, there, rfl⟩ := List.mem_map.1 member
    cases heard : said server body with
    | none => simp [heard] at there
    | some message =>
      rw [heard] at there
      exact valid_of_ascii (line_extracted there).small
  | _ => cases member

theorem sendable_after (sendable : Sendable store) (request : Request) :
    Sendable (after server store request) := by
  have run : ∀ (calls : List Call) (store : Store), Sendable store → (∀ made ∈ calls, Valid (text made)) →
      Sendable (calls.foldl (next server.setting) store) := by
    intro calls
    induction calls with
    | nil => exact fun _ sendable _ => sendable
    | cons made rest ih =>
      intro store sendable valid
      apply ih
      · exact sendable_next sendable (valid made List.mem_cons_self)
      · exact fun other member => valid other (List.mem_cons_of_mem _ member)
  exact run _ store sendable fun made member => valid_calls member

theorem served_append (server : Server) (file : Option Bytes) (first second : List Request) :
    served server file (first ++ second) = second.foldl (serve server) (served server file first) :=
  List.foldl_append

theorem served_reached (clean : Clean server) (file : Option Bytes) (requests : List Request) :
    served server file requests = reached server.setting file (requests.flatMap (callsOf server)) ∧
      Sendable (served server file requests) := by
  induction requests using List.reverseRecOn with
  | nil => exact ⟨rfl, sendable_opened _ file⟩
  | append_singleton requests request ih =>
    have last : served server file (requests ++ [request]) =
        after server (served server file requests) request := by
      rw [served_append]
      exact (handle_ends clean ih.2 request).final
    rw [last]
    refine ⟨?_, sendable_after ih.2 request⟩
    rw [ih.1]
    unfold after reached
    rw [List.flatMap_append, List.foldl_append, List.flatMap_singleton]

/-- Over all requests, the memory of the server is a store to which their calls are made, all facts can be
sent, and the next request ends as it should. -/
theorem server_memory (server : Server) (clean : Clean server) (file : Option Bytes)
    (requests : List Request) :
    served server file requests = reached server.setting file (requests.flatMap (callsOf server)) ∧
      Sendable (served server file requests) ∧
      ∀ request, Ends server (served server file requests) request (handle server request) := by
  obtain ⟨same, sendable⟩ := served_reached clean file requests
  exact ⟨same, sendable, handle_ends clean sendable⟩

def ageBody : Bytes :=
  ascii "\x7b\"messages\":[\x7b\"role\":\"user\",\"content\":\"I'm 30 yo\"\x7d]\x7d"

def ageMessages : Json :=
  .arr [.obj [(ascii "role", .str (ascii "user")), (ascii "content", .str (ascii "I'm 30 yo"))]]

def emptyBody : Bytes := ascii "\x7b\x7d"

def knowing : Server where
  setting := {
    codec := {
      parser := .table [(ageBody, .obj [(ascii "messages", ageMessages)]), (emptyBody, .obj [])]
        (by simp [ageMessages])
      dump := compact }
    path := Paths.ofBytes (ascii "memory.json")
    faults := fun _ => .none }
  config := {}
  hardware := {}
  explain := fun _ => []

theorem knowing_clean : Clean knowing := ⟨valid_ascii _, valid_ascii _⟩

theorem server_memory_knowing :
    served knowing none [.chat ageBody] = reached knowing.setting none (callsOf knowing (.chat ageBody)) ∧
      Sendable (served knowing none [.chat ageBody]) ∧
      ∀ request, Ends knowing (served knowing none [.chat ageBody]) request (handle knowing request) :=
  server_memory knowing knowing_clean none [.chat ageBody]

example : (served knowing none [.chat ageBody]).facts = [ascii "The user is 30 years old."] := by
  decide +kernel

end CppCoder.ServerMemory
