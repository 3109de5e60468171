import CppCoder.ServerMemory

/-! What the chat server sends on to Ollama: the messages of the page as they are, and in front of them all
that it knows. What a chat message teaches is sent with every later one until it is forgotten. -/

namespace CppCoder.ToldFacts
open Support Utf8 JsonValue Program ChatHandlers ServerMemory
open MemoryStore (Store Call changed lowered trim)
open FactExtractor (extractFacts)
open ExtractedFacts (Line line_extracted)

variable {server : Server} {store : Store}

theorem lines_eq {first second more further : Bytes} (single : 10 ∉ first) (alone : 10 ∉ second)
    (same : first ++ 10 :: more = second ++ 10 :: further) : first = second ∧ more = further := by
  induction first generalizing second with
  | nil =>
    cases second with
    | nil => exact ⟨rfl, (List.cons.inj same).2⟩
    | cons b rest =>
      have equal := (List.cons.inj same).1
      exact absurd (equal ▸ List.mem_cons_self) alone
  | cons a rest ih =>
    cases second with
    | nil =>
      have equal := (List.cons.inj same).1
      exact absurd (equal ▸ List.mem_cons_self) single
    | cons b others =>
      obtain ⟨equal, tails⟩ := List.cons.inj same
      have inner := ih (fun member => single (List.mem_cons_of_mem _ member))
        (fun member => alone (List.mem_cons_of_mem _ member)) tails
      exact ⟨by rw [equal, inner.1], inner.2⟩

theorem systemContent_injective {facts others : List Bytes} (single : ∀ f ∈ facts, 10 ∉ f)
    (alone : ∀ f ∈ others, 10 ∉ f) (same : systemContent facts = systemContent others) : facts = others := by
  unfold systemContent at same
  have lines := List.append_cancel_left same
  clear same
  induction facts generalizing others with
  | nil =>
    cases others with
    | nil => rfl
    | cons g rest => cases lines
  | cons f facts ih =>
    cases others with
    | nil => cases lines
    | cons g others =>
      rw [List.flatMap_cons, List.flatMap_cons, List.append_assoc, List.append_assoc, List.append_assoc,
        List.append_assoc] at lines
      obtain ⟨equal, rest⟩ := lines_eq (single f List.mem_cons_self) (alone g List.mem_cons_self)
        (List.append_cancel_left lines)
      have tails := ih (fun h member => single h (List.mem_cons_of_mem _ member))
        (fun h member => alone h (List.mem_cons_of_mem _ member)) rest
      rw [equal, tails]

theorem chat_run (clean : Clean server) (file : Option Bytes) (requests : List Request)
    {body path : Bytes} {out : Json}
    (asked : handle server (.chat body) (served server file requests) = .ok (.stream path out) store) :
    store = served server file (requests ++ [.chat body]) ∧ Asks server body store.facts path out := by
  have run := (runs_chat clean (served_reached clean file requests).2 body).ok asked
  refine ⟨?_, run.2 path out rfl⟩
  rw [served_append]
  change store = finalState (handle server (.chat body) (served server file requests))
  rw [asked]
  rfl

/-- Over all requests, a chat request sends on the messages of the client as they are, behind one that lists
the facts that are known by then, from which facts of one line each can be read. -/
theorem chat_forwards (server : Server) (clean : Clean server) (file : Option Bytes) (requests : List Request)
    {body path : Bytes} {out : Json} {store : Store}
    (asked : handle server (.chat body) (served server file requests) = .ok (.stream path out) store) :
    store = served server file (requests ++ [.chat body]) ∧ Asks server body store.facts path out ∧
      ∀ facts, (∀ f ∈ store.facts, 10 ∉ f) → (∀ f ∈ facts, 10 ∉ f) →
        systemContent facts = systemContent store.facts → facts = store.facts := by
  obtain ⟨same, asks⟩ := chat_run clean file requests asked
  exact ⟨same, asks, fun facts single alone equal => systemContent_injective alone single equal⟩

def age : Bytes := ascii "The user is 30 years old."

def ageStore : Store := served knowing none [.chat ageBody]

theorem ageStore_asked : handle knowing (.chat ageBody) (served knowing none []) = .ok
    (.stream (ascii "/api/chat") (chatBody knowing.config.defaultModel
      (.arr [systemMessage [age], .obj [(ascii "role", .str (ascii "user")),
        (ascii "content", .str (ascii "I'm 30 yo"))]]))) ageStore := by rfl

theorem chat_forwards_knowing :
    ageStore = served knowing none ([] ++ [.chat ageBody]) ∧
      Asks knowing ageBody ageStore.facts (ascii "/api/chat") (chatBody knowing.config.defaultModel
        (.arr [systemMessage [age], .obj [(ascii "role", .str (ascii "user")),
          (ascii "content", .str (ascii "I'm 30 yo"))]])) ∧
      ∀ facts, (∀ f ∈ ageStore.facts, 10 ∉ f) → (∀ f ∈ facts, 10 ∉ f) →
        systemContent facts = systemContent ageStore.facts → facts = ageStore.facts :=
  chat_forwards knowing knowing_clean none [] ageStore_asked

/-! ### What stays known -/

/-- A request that asks the server to forget a fact. -/
def Forgets (server : Server) (fact : Bytes) : Request → Prop
  | .removeFact body => ∃ named, namedFact server body = some named ∧ lowered (trim named) = lowered fact
  | _ => False

def Knows (facts : List Bytes) (fact : Bytes) : Prop := ∃ f ∈ facts, lowered f = lowered fact

theorem knows_added (facts : List Bytes) {fact : Bytes} (line : Line fact) :
    Knows (changed facts (.add fact)) fact := by
  simp only [changed]
  rw [line.trimmed]
  split_ifs with refused
  · obtain ⟨f, member, same⟩ := List.any_eq_true.1 (refused.resolve_left line.some)
    exact ⟨f, member, eq_of_beq same⟩
  · exact ⟨fact, List.mem_append_right _ (List.mem_singleton_self fact), rfl⟩

theorem knows_changed {facts : List Bytes} {fact : Bytes} (knows : Knows facts fact) {made : Call}
    (keeps : ∀ named, made = .remove named → lowered (trim named) ≠ lowered fact) :
    Knows (changed facts made) fact := by
  obtain ⟨f, member, same⟩ := knows
  cases made with
  | add other =>
    simp only [changed]
    split_ifs
    · exact ⟨f, member, same⟩
    · exact ⟨f, List.mem_append_left _ member, same⟩
  | remove named =>
    simp only [changed]
    split_ifs
    · exact ⟨f, member, same⟩
    · refine ⟨f, (List.mem_eraseP_of_neg ?_).2 member, same⟩
      rw [beq_iff_eq, same]
      exact (keeps named rfl).symm

theorem knows_calls {facts : List Bytes} {fact : Bytes} (knows : Knows facts fact) (calls : List Call)
    (keeps : ∀ named, .remove named ∈ calls → lowered (trim named) ≠ lowered fact) :
    Knows (calls.foldl changed facts) fact := by
  induction calls generalizing facts with
  | nil => exact knows
  | cons made rest ih =>
    apply ih
    · apply knows_changed knows
      intro named same
      exact keeps named (same ▸ List.mem_cons_self)
    · exact fun named member => keeps named (List.mem_cons_of_mem _ member)

theorem after_facts (server : Server) (store : Store) (request : Request) :
    (after server store request).facts = (callsOf server request).foldl changed store.facts := by
  unfold after
  generalize callsOf server request = calls
  induction calls generalizing store with
  | nil => rfl
  | cons made rest ih => rw [List.foldl_cons, ih, MemoryStore.next_facts, List.foldl_cons]

theorem knows_taught (server : Server) (store : Store) {body message fact : Bytes}
    (heard : said server body = some message) (taught : fact ∈ extractFacts message) :
    Knows (after server store (.chat body)).facts fact := by
  rw [after_facts]
  change Knows ((((said server body).elim [] extractFacts).map Call.add).foldl changed store.facts) fact
  rw [heard]
  obtain ⟨first, rest, split⟩ := List.append_of_mem taught
  change Knows (((extractFacts message).map Call.add).foldl changed store.facts) fact
  rw [split, List.map_append, List.foldl_append, List.map_cons, List.foldl_cons]
  apply knows_calls (knows_added _ (line_extracted taught))
  intro named member
  obtain ⟨f, -, other⟩ := List.mem_map.1 member
  cases other

theorem knows_after (server : Server) {store : Store} {fact : Bytes} (knows : Knows store.facts fact)
    {request : Request} (keeps : ¬ Forgets server fact request) :
    Knows (after server store request).facts fact := by
  rw [after_facts]
  apply knows_calls knows
  intro named member same
  cases request with
  | removeFact body =>
    obtain ⟨other, found, equal⟩ := Option.map_eq_some_iff.1 (Option.mem_toList.1 member)
    cases equal
    exact keeps ⟨named, found, same⟩
  | addFact body =>
    obtain ⟨other, -, equal⟩ := Option.map_eq_some_iff.1 (Option.mem_toList.1 member)
    cases equal
  | chat body =>
    obtain ⟨other, -, equal⟩ := List.mem_map.1 member
    cases equal
  | _ => cases member

theorem knows_served (clean : Clean server) (file : Option Bytes) (requests : List Request) {fact : Bytes}
    (knows : Knows (served server file requests).facts fact) (more : List Request)
    (keeps : ∀ request ∈ more, ¬ Forgets server fact request) :
    Knows (served server file (requests ++ more)).facts fact := by
  induction more using List.reverseRecOn with
  | nil => rwa [List.append_nil]
  | append_singleton more request ih =>
    have earlier := ih fun other member => keeps other (List.mem_append_left _ member)
    have ends := handle_ends clean (served_reached clean file (requests ++ more)).2 request
    have last : served server file (requests ++ (more ++ [request])) =
        after server (served server file (requests ++ more)) request := by
      rw [← List.append_assoc, served_append]
      exact ends.final
    rw [last]
    exact knows_after server earlier (keeps request (by simp))

/-- The request to Ollama lists this fact in front of everything else, up to the case of its letters. -/
def Tells (fact : Bytes) (out : Json) : Prop :=
  ∃ model facts items, out = chatBody model (.arr (systemMessage facts :: items)) ∧ Knows facts fact

theorem tells_of_asks {body path fact : Bytes} {facts : List Bytes} {out : Json}
    (asks : Asks server body facts path out) (knows : Knows facts fact) : Tells fact out := by
  obtain ⟨parsed, messages, model, forwarded, -, -, -, forwards, rfl⟩ := asks.split
  cases forwards with
  | plain none =>
    obtain ⟨f, member, -⟩ := knows
    rw [none] at member
    cases member
  | listed items some array => exact ⟨model, facts, items, rfl, knows⟩

/-- A fact that a chat message teaches is sent with that message and with every later one, whatever comes in
between, until a request asks to forget it. -/
theorem taught_told (server : Server) (clean : Clean server) (file : Option Bytes)
    (before more : List Request) {body message fact : Bytes} (heard : said server body = some message)
    (taught : fact ∈ extractFacts message) (keeps : ∀ request ∈ more, ¬ Forgets server fact request)
    {later path : Bytes} {out : Json} {store : Store}
    (asked : handle server (.chat body) (served server file before) = .ok (.stream path out) store ∨
      handle server (.chat later) (served server file (before ++ [.chat body] ++ more)) =
        .ok (.stream path out) store) :
    Tells fact out := by
  have sendable := (served_reached clean file before).2
  have first : Knows (served server file (before ++ [.chat body])).facts fact := by
    have last : served server file (before ++ [.chat body]) =
        after server (served server file before) (.chat body) := by
      rw [served_append]
      exact (handle_ends clean sendable (.chat body)).final
    rw [last]
    exact knows_taught server _ heard taught
  obtain now | then_ := asked
  · obtain ⟨same, asks⟩ := chat_run clean file before now
    exact tells_of_asks asks (same ▸ first)
  · obtain ⟨same, asks⟩ := chat_run clean file _ then_
    have known := knows_served clean file _ first more keeps
    have still := knows_served clean file _ known [.chat later] (by simp [Forgets])
    exact tells_of_asks asks (same ▸ still)

theorem taught_told_knowing :
    Tells age (chatBody knowing.config.defaultModel (.arr [systemMessage [age]])) := by
  have heard : said knowing ageBody = some (ascii "I'm 30 yo") := by rfl
  have taught : age ∈ extractFacts (ascii "I'm 30 yo") := by decide +kernel
  have asked : handle knowing (.chat emptyBody) (served knowing none ([] ++ [.chat ageBody] ++ [.facts])) =
      .ok (.stream (ascii "/api/chat") (chatBody knowing.config.defaultModel (.arr [systemMessage [age]])))
        ageStore := by rfl
  exact taught_told knowing knowing_clean none [] [.facts] heard taught (by simp [Forgets]) (.inr asked)

end CppCoder.ToldFacts
