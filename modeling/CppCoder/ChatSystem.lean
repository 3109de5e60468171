import CppCoder.ChatReplies
import CppCoder.EventsFile
import CppCoder.ToldFacts
import CppCoder.StreamReading

/-! The chat page and the chat server together. A question is on its way until the server takes it, in any
order; the server may take it after the page has given it up. A reply comes in pieces of any length. Requests
of other pages and of the memory panel come in between. The server handles one request after another. -/

namespace CppCoder.ChatSystem
open Support Utf8 JsonText JsonValue ChatServer ChatHandlers
open ChatSession (Browser Page Message)
open MemoryStore (Store)
open EventsFile (encode)

/-- What the page asks, with the visit and the call that ask it. -/
structure Question where
  visit : Nat
  controller : Nat
  request : ChatSession.Request
  deriving DecidableEq

/-- No other question has it. -/
def Question.key (q : Question) : Nat × Nat := (q.visit, q.controller)

def Question.body (q : Question) : Bytes := encode q.request.body

/-- A question that the server has taken: the memory that it found, what becomes of the request to Ollama, and
what has not come in of the reply. -/
structure Exchange where
  question : Question
  before : Store
  upstream : Upstream
  pending : Bytes

/-- What was asked is kept for the account only. -/
structure State where
  page : Page
  visit : Nat := 0
  asked : List Question := []
  wire : List Question := []
  store : Store
  exchanges : List Exchange := []

/-- The page, the server, and how a body is written. -/
structure Parties where
  browser : Browser
  server : Server
  dump : Json → Bytes

variable (parties : Parties)

/-- The status and the bytes of a reply. An exception that leaves the handler is an internal error. -/
def reply (question : Question) (before : Store) (upstream : Upstream) : Nat × Bytes :=
  match handle parties.server (.chat question.body) before with
  | .ok (.content status body) _ => (status, parties.dump body)
  | .ok (.stream _ _) _ => (200, (chatProvider upstream).flatten)
  | .error _ _ => (500, [])

def Exchange.reply (x : Exchange) : Nat × Bytes := ChatSystem.reply parties x.question x.before x.upstream

inductive Event where
  | page (e : ChatSession.Event)
  | arrive (k : Nat) (upstream : Upstream)
  | other (request : Request)
  | respond (k : Nat) (body : Bool)
  | chunk (k : Nat) (length : Nat)
  | close (k : Nat)

def isAnswer : ChatSession.Event → Bool
  | .responded _ _ _ => true
  | .chunk _ _ => true
  | .closed _ => true
  | _ => false

def visits : ChatSession.Event → Nat
  | .reload => 1
  | _ => 0

/-- The questions of the calls that a page makes, where its controllers had come to this number. -/
def questions (visit controllers : Nat) (page : Page) : List Question :=
  (page.calls.filter fun call => controllers ≤ call.controller).map fun call =>
    ⟨visit, call.controller, call.request⟩

def State.turned (s : State) (e : ChatSession.Event) (page : Page) : State :=
  let fresh := questions s.visit s.page.controllers page
  { s with page, visit := s.visit + visits e, asked := s.asked ++ fresh, wire := s.wire ++ fresh }

/-- Something of a reply reaches the page that waits for it, and this much of it is left. -/
def State.reach (s : State) (k : Nat) (e : Exchange → ChatSession.Event) (left : Exchange → Bytes) :
    Option State :=
  (s.exchanges[k]?).bind fun x =>
    if x.question.visit = s.visit then
      (ChatSession.step parties.browser s.page (e x)).map fun page =>
        { s with page, exchanges := s.exchanges.set k { x with pending := left x } }
    else none

def step (s : State) : Event → Option State
  | .page e =>
      if isAnswer e then none else (ChatSession.step parties.browser s.page e).map fun page => s.turned e page
  | .arrive k upstream =>
      (s.wire[k]?).map fun question =>
        { s with
          wire := s.wire.eraseIdx k
          store := serve parties.server s.store (.chat question.body)
          exchanges := s.exchanges ++
            [⟨question, s.store, upstream, (reply parties question s.store upstream).2⟩] }
  | .other request => some { s with store := serve parties.server s.store request }
  | .respond k body =>
      s.reach parties k (fun x => .responded x.question.controller (x.reply parties).1 body) Exchange.pending
  | .chunk k length =>
      s.reach parties k (fun x => .chunk x.question.controller (x.pending.take length)) fun x =>
        x.pending.drop length
  | .close k =>
      if (s.exchanges[k]?).all fun x => x.pending.isEmpty then
        s.reach parties k (fun x => .closed x.question.controller) Exchange.pending
      else none

end CppCoder.ChatSystem
