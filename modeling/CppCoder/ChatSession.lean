import CppCoder.ChatPage
import CppCoder.Support.JsonWriting
import CppCoder.Support.Machine
import CppCoder.Support.Timers

/-! The chat page over time. A handler runs without interruption until it waits; between two waits the
browser may call any other. The status line, the memory panel and the pull banner are left out. -/

namespace CppCoder.ChatSession
open Support Utf8 JsonText TextDecoder ChatPage

inductive Role where
  | user
  | assistant
  deriving DecidableEq

structure Message where
  role : Role
  content : Text
  deriving DecidableEq

def Role.name : Role → Text
  | .user => lit "user"
  | .assistant => lit "assistant"

def Message.document (m : Message) : Document :=
  .obj [(lit "role", .str m.role.name), (lit "content", .str m.content)]

/-- `JSON.stringify(history)`. -/
def historyText (history : List Message) : Text := (Document.arr (history.map Message.document)).text

def readRole (role : Text) : Option Role :=
  if role = lit "user" then some .user else if role = lit "assistant" then some .assistant else none

def readMessage (v : Value) : Option Message :=
  match v.get (lit "role"), v.get (lit "content") with
  | some (.str role), some (.str content) => (readRole role).map fun role => ⟨role, content⟩
  | _, _ => none

/-- The history that is stored, unless what is stored is no history of messages. -/
def loadHistory (raw : Option Text) : Option (List Message) :=
  match raw with
  | none => some []
  | some raw =>
      if raw = [] then some []
      else match parse raw with
        | none => some []
        | some (.arr items) => items.mapM readMessage
        | some _ => none

structure Suggestion where
  name : Text
  fits : Bool
  uncensored : Bool

structure Listing where
  models : List Text
  suggestions : List Suggestion
  default : Text

inductive LoadAnswer where
  | listed (listing : Listing)
  | refused
  | unreachable

structure Select where
  options : List Text
  value : Text
  disabled : Bool

def loadingText : Text := lit "Loading models" ++ [0x2026]

def refusedText : Text := lit "(no models " ++ [0x2014] ++ lit " Ollama unreachable)"

def unreachableText : Text := lit "(server unreachable)"

def Select.choose (box : Select) (value : Text) : Select :=
  { box with value := if value ∈ box.options then value else [] }

def offered (showUncensored : Bool) (listing : Listing) : List Text :=
  let fitting := listing.suggestions.filter Suggestion.fits
  let coding := fitting.filter fun s => !s.uncensored
  let uncensored := fitting.filter Suggestion.uncensored
  (coding ++ if showUncensored then uncensored else []).map Suggestion.name

/-- Whether a model is pulled, as far as the page knows it. What is entered last counts. -/
abbrev ModelInfo := List (Text × Bool)

def listedInfo (showUncensored : Bool) (listing : Listing) : ModelInfo :=
  (listing.models.map (·, true) ++ (offered showUncensored listing).map (·, false)).reverse

def listedSelect (showUncensored : Bool) (remembered : Option Text) (disabled : Bool) (listing : Listing) :
    Select :=
  let options := listing.models ++ offered showUncensored listing
  let info := listedInfo showUncensored listing
  let box : Select := ⟨options, options.headD [], if info = [] then disabled else false⟩
  match remembered.filter fun model => model ≠ [] ∧ (info.lookup model).isSome with
  | some model => box.choose model
  | none => if listing.default ∈ listing.models then box.choose listing.default else box

/-! ### The page -/

structure Bubble where
  node : Nat
  role : Role
  content : Text
  error : Bool
  deriving DecidableEq

structure Request where
  model : Text
  messages : List Message
  deriving DecidableEq

def Request.document (r : Request) : Document :=
  .obj [(lit "model", .str r.model), (lit "messages", .arr (r.messages.map Message.document))]

/-- `JSON.stringify({ model, messages })`. -/
def Request.body (r : Request) : Text := r.document.text

/-- What a call of `send` waits for: the response, or the next chunk of its body. -/
inductive Awaiting where
  | response
  | chunk (decoder : Decoder) (buffer : Text) (chat : Chat)

/-- A call of `send` that is not over. What it has read is kept for the account only. -/
structure Call where
  controller : Nat
  timer : Nat
  bubble : Nat
  request : Request
  timedOut : Bool := false
  awaiting : Awaiting := .response
  received : List Bytes := []

/-- A call of `loadModels` that is not over, and the model that `pullModel` chooses after it. -/
structure Load where
  id : Nat
  pulled : Option Text := none

structure Page where
  stored : Option Text
  saves : Nat := 0
  storedModel : Option Text
  showUncensored : Bool := false
  history : List Message := []
  sending : Bool := false
  currentAbort : Option Nat := none
  controllers : Nat := 0
  aborted : List Nat := []
  timers : Timers := .start
  calls : List Call := []
  nodes : Nat := 0
  shown : List Bubble := []
  modelInfo : ModelInfo := []
  select : Select
  loads : List Load := []
  nextLoad : Nat := 0

/-- What the browser decides: whether a save succeeds, by its number, and how it words a `TypeError`. -/
structure Browser where
  keeps : Nat → Bool
  typeError : Text

variable (browser : Browser)

def saveHistory (page : Page) : Page :=
  { page with
    stored := if browser.keeps page.saves then some (historyText page.history) else page.stored
    saves := page.saves + 1 }

def makeBubble (page : Page) (role : Role) (content : Text) (error : Bool) : Page :=
  { page with shown := page.shown ++ [⟨page.nodes, role, content, error⟩], nodes := page.nodes + 1 }

def renderAll (page : Page) : Page :=
  page.history.foldl (fun page m => makeBubble page m.role m.content false) { page with shown := [] }

def startLoad (page : Page) (pulled : Option Text) : Page :=
  { page with
    select := ⟨[], loadingText, true⟩
    loads := page.loads ++ [⟨page.nextLoad, pulled⟩]
    nextLoad := page.nextLoad + 1 }

/-- The page when it is opened with what the browser has stored. -/
def opened (stored storedModel : Option Text) (showUncensored : Bool) : Option Page :=
  (loadHistory stored).map fun history =>
    startLoad (renderAll
      { stored, storedModel, showUncensored, history, select := ⟨[], loadingText, true⟩ }) none

def stopCurrentRequest (page : Page) : Page :=
  { page with aborted := page.aborted ++ page.currentAbort.toList }

/-- `send` up to where it waits for the response. -/
def request (page : Page) (text : Text) : Page :=
  let page := { page with sending := true, history := page.history ++ [⟨.user, text⟩] }
  let page := renderAll (saveHistory browser page)
  let bubble := page.nodes
  let page := makeBubble page .assistant [] false
  let call : Call :=
    { controller := page.controllers, timer := page.timers.set.1, bubble,
      request := ⟨page.select.value, page.history⟩ }
  { page with
    currentAbort := some page.controllers
    controllers := page.controllers + 1
    timers := page.timers.set.2
    calls := page.calls ++ [call] }

/-- The button, or the Enter key, with this text in the field. -/
def send (page : Page) (input : Text) : Page :=
  if page.sending then stopCurrentRequest page
  else if trim input = [] then page
  else if page.select.value = [] ∨ page.select.disabled then page
  else if page.modelInfo.lookup page.select.value = some false then page
  else request browser page (trim input)

def showIn (page : Page) (node : Nat) (content : Text) (error : Bool) : Page :=
  { page with shown := page.shown.map fun b => if b.node = node then { b with content, error } else b }

/-- The `finally` block. -/
def leave (page : Page) (call : Call) : Page :=
  { page with
    timers := page.timers.clear call.timer
    currentAbort := none
    sending := false
    calls := page.calls.filter fun other => other.controller ≠ call.controller }

inductive Failure where
  | abort
  | other (message : Text)

def Failure.text (timedOut : Bool) : Failure → Text
  | .abort => lit (if timedOut then "Request timed out after 10 minutes without completing"
      else "Request stopped")
  | .other message => lit "Request failed: " ++ message

/-- The `catch` block. -/
def fail (page : Page) (call : Call) (e : Failure) : Page :=
  leave (showIn page call.bubble (e.text call.timedOut) true) call

def update (page : Page) (call : Call) : Page :=
  { page with calls := page.calls.map fun other => if other.controller = call.controller then call else other }

def respond (page : Page) (call : Call) (status : Nat) (body : Bool) : Page :=
  if ¬ (200 ≤ status ∧ status < 300) then fail page call (.other (lit "HTTP " ++ (decimal status).map
    UInt8.toNat))
  else if body = false then fail page call (.other (lit "Streaming not supported by this browser"))
  else update page { call with awaiting := .chunk .start [] {} }

def takeChunk (page : Page) (call : Call) (decoder : Decoder) (buffer : Text) (chat : Chat) (value : Bytes) :
    Page :=
  let (decoder, text) := decode decoder value
  let (lines, buffer) := cut (buffer ++ text)
  match lines.forM (onLine chatObject) chat with
  | .error .typeError _ => fail page call (.other browser.typeError)
  | .ok _ chat =>
      update (showIn page call.bubble chat.assistantContent chat.sawError)
        { call with awaiting := .chunk decoder buffer chat, received := call.received ++ [value] }

/-- The reply is pushed to the history that the page has by now. -/
def reply (page : Page) (call : Call) (chat : Chat) : Page :=
  let page := showIn page call.bubble chat.assistantContent chat.sawError
  let page :=
    if chat.sawError then page
    else saveHistory browser { page with history := page.history ++ [⟨.assistant, chat.assistantContent⟩] }
  leave page call

def endBody (page : Page) (call : Call) (decoder : Decoder) (buffer : Text) (chat : Chat) : Page :=
  match onLine chatObject (buffer ++ flush decoder) chat with
  | .error .typeError _ => fail page call (.other browser.typeError)
  | .ok _ chat =>
      if chat.assistantContent = [] ∧ chat.sawError = false then
        fail page call (.other (lit "Ollama closed the stream without returning content"))
      else reply browser page call chat

def newChat (page : Page) (confirmed : Bool) : Page :=
  if page.history ≠ [] ∧ confirmed = false then page
  else renderAll (saveHistory browser { page with history := [] })

/-- A timer belongs to the call that set it; what it aborts is the request that is current. -/
def expire (page : Page) (timer : Nat) : Page :=
  stopCurrentRequest { page with
    timers := page.timers.clear timer
    calls := page.calls.map fun call => if call.timer = timer then { call with timedOut := true } else call }

def finishLoad (page : Page) (load : Load) (answer : LoadAnswer) : Page :=
  let page := { page with loads := page.loads.filter fun other => other.id ≠ load.id }
  let page :=
    match answer with
    | .unreachable => { page with select := { page.select with options := [unreachableText], value :=
        unreachableText } }
    | .refused => { page with select := { page.select with options := [refusedText], value := refusedText } }
    | .listed listing =>
        { page with
          modelInfo := listedInfo page.showUncensored listing
          select := listedSelect page.showUncensored page.storedModel page.select.disabled listing }
  match load.pulled with
  | none => page
  | some model => { page with select := page.select.choose model, storedModel := some model }

inductive Event where
  | send (input : Text)
  | newChat (confirmed : Bool)
  | responded (controller : Nat) (status : Nat) (body : Bool)
  | chunk (controller : Nat) (value : Bytes)
  | closed (controller : Nat)
  | rejected (controller : Nat) (e : Failure)
  | expired (timer : Nat)
  | choose (model : Text)
  | refresh
  | toggle
  | pulled (model : Text)
  | loaded (load : Nat) (answer : LoadAnswer)
  | reload

def Page.call (page : Page) (controller : Nat) : Option Call :=
  page.calls.find? fun call => call.controller = controller

/-- One event, where it can happen: what is pending may be answered, a timer that is set may expire, and an
`AbortError` needs an abort. -/
def step (page : Page) : Event → Option Page
  | .send input => some (send browser page input)
  | .newChat confirmed => some (newChat browser page confirmed)
  | .responded controller status body =>
      (page.call controller).bind fun call =>
        match call.awaiting with
        | .response => some (respond page call status body)
        | _ => none
  | .chunk controller value =>
      (page.call controller).bind fun call =>
        match call.awaiting with
        | .chunk decoder buffer chat => some (takeChunk browser page call decoder buffer chat value)
        | _ => none
  | .closed controller =>
      (page.call controller).bind fun call =>
        match call.awaiting with
        | .chunk decoder buffer chat => some (endBody browser page call decoder buffer chat)
        | _ => none
  | .rejected controller e =>
      (page.call controller).bind fun call =>
        match e with
        | .abort => if controller ∈ page.aborted then some (fail page call .abort) else none
        | .other message => some (fail page call (.other message))
  | .expired timer => if timer ∈ page.timers.pending then some (expire page timer) else none
  | .choose model =>
      if page.select.disabled = false ∧ model ∈ page.select.options then
        some { page with select := page.select.choose model, storedModel := some model }
      else none
  | .refresh => some (startLoad page none)
  | .toggle => some (startLoad { page with showUncensored := !page.showUncensored } none)
  | .pulled model => some (startLoad page (some model))
  | .loaded id answer => (page.loads.find? fun load => load.id = id).map fun load => finishLoad page load answer
  | .reload => opened page.stored page.storedModel page.showUncensored

end CppCoder.ChatSession
