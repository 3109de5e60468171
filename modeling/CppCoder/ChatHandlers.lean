import CppCoder.FactExtractor
import CppCoder.MemoryStore

/-! The handlers of the chat server. One request comes after another; an exception that leaves a handler
becomes a reply of the HTTP library, and what the handler did to the memory before stays done. -/

namespace CppCoder.ChatHandlers
open Support Utf8 JsonValue Program
open MemoryStore (Store Setting DumpError addFact removeFact)
open FactExtractor (extractFacts)

structure ChatServerConfig where
  ollamaHost : Bytes := ascii "localhost"
  ollamaPort : Int := 11434
  defaultModel : Bytes := ascii "qwen2.5-coder:7b"

structure HardwareInfo where
  ramGb : Rat := 0
  vramGb : Rat := 0
  vramDetected : Bool := false

inductive Category where
  | coder
  | uncensored
  deriving DecidableEq

structure ModelSuggestion where
  name : Bytes
  sizeGb : Rat
  minRamGb : Rat
  minVramGb : Rat
  category : Category

def suggestion (name : String) (sizeGb minRamGb minVramGb : Rat) (category : Category) : ModelSuggestion :=
  ⟨ascii name, sizeGb, minRamGb, minVramGb, category⟩

def suggestedModels : List ModelSuggestion :=
  [suggestion "qwen2.5-coder:1.5b" 1 4 2 .coder,
   suggestion "qwen2.5-coder:7b" (47 / 10) 8 6 .coder,
   suggestion "qwen2.5-coder:14b" 9 16 10 .coder,
   suggestion "qwen2.5-coder:32b" 20 32 20 .coder,
   suggestion "deepseek-coder-v2:16b" 9 16 10 .coder,
   suggestion "codellama:7b" (38 / 10) 8 6 .coder,
   suggestion "codellama:13b" (74 / 10) 16 10 .coder,
   suggestion "starcoder2:3b" (17 / 10) 4 3 .coder,
   suggestion "dolphin-mixtral:8x7b" 26 48 26 .uncensored,
   suggestion "wizard-vicuna-uncensored:13b" (74 / 10) 16 10 .uncensored,
   suggestion "dolphin-llama3:8b" (47 / 10) 8 6 .uncensored]

/-- The server: its memory, its configuration, what was detected, and how the JSON library words a parse
error. -/
structure Server where
  setting : Setting
  config : ChatServerConfig
  hardware : HardwareInfo
  explain : Bytes → Bytes

inductive HandlerError where
  | json (e : JsonError)
  /-- `insert` met a value that is no array. -/
  | insert
  | dump
  deriving DecidableEq

/-- A reply that is whole, or one that is streamed while this request is made to Ollama. -/
inductive Response where
  | content (status : Nat) (body : Json)
  | stream (path : Bytes) (out : Json)

abbrev Handler (α : Type) := EStateM HandlerError Store α

def value {α : Type} : Except JsonError α → Handler α
  | .ok a => return a
  | .error e => throw (.json e)

/-- A call of the memory, which throws when `dump` does. -/
def memory {α : Type} (called : EStateM DumpError Store α) : Handler α := fun store =>
  match called store with
  | .ok a store => .ok a store
  | .error .type store => .error .dump store

/-- `set_content(body.dump())`. -/
def respond (status : Nat) (body : Json) : Handler Response :=
  if body.dumpable then return .content status body else throw .dump

def errorBody (message : Bytes) : Json := .obj [(ascii "error", .str message)]

variable (server : Server)

/-- The block around `parse` that three kinds of handlers have. -/
def withBody (body : Bytes) (handle : Json → Handler Response) : Handler Response :=
  match server.setting.codec.parser.parse body with
  | none => respond 400 (errorBody (ascii "invalid JSON body: " ++ server.explain body))
  | some parsed => handle parsed

/-! ### `/api/models` -/

/-- The names up to the first entry that makes `value` throw. -/
def pulledNames (pulled : List Bytes) : List Json → List Bytes
  | [] => pulled
  | m :: rest =>
      match m.valueStr "name" [] with
      | .ok name => pulledNames (pulled ++ [name]) rest
      | .error _ => pulled

def listedModels (body : Bytes) : List Bytes :=
  match server.setting.codec.parser.parse body with
  | none => []
  | some parsed =>
      match parsed.valueJson "models" (.arr []) with
      | .ok models => pulledNames [] models.items
      | .error _ => []

def fits (hardware : HardwareInfo) (s : ModelSuggestion) : Bool :=
  (hardware.ramGb ≤ 0 || s.minRamGb ≤ hardware.ramGb) &&
    (!hardware.vramDetected || s.minVramGb ≤ hardware.vramGb)

def Category.name : Category → Bytes
  | .coder => ascii "coder"
  | .uncensored => ascii "uncensored"

def suggestionBody (hardware : HardwareInfo) (s : ModelSuggestion) : Json :=
  .obj [(ascii "name", .str s.name), (ascii "size_gb", .float s.sizeGb),
    (ascii "min_ram_gb", .float s.minRamGb), (ascii "min_vram_gb", .float s.minVramGb),
    (ascii "fits", .bool (fits hardware s)), (ascii "category", .str s.category.name)]

def suggested (pulled : List Bytes) : List ModelSuggestion :=
  suggestedModels.filter fun s => !pulled.contains s.name

/-- `std::to_string`. -/
def toText (n : Int) : Bytes := (if n < 0 then ascii "-" else []) ++ decimal n.natAbs

def unreachable : Bytes :=
  ascii "Could not reach Ollama at " ++ server.config.ollamaHost ++ ascii ":" ++
    toText server.config.ollamaPort ++ ascii " -- is it running? (`ollama serve`)"

def modelsBody (reached : Bool) (pulled : List Bytes) : Json :=
  .obj ([(ascii "default", .str server.config.defaultModel), (ascii "models", .arr (pulled.map .str)),
      (ascii "hardware", .obj [(ascii "ram_gb", .float server.hardware.ramGb),
        (ascii "vram_gb", .float server.hardware.vramGb),
        (ascii "vram_detected", .bool server.hardware.vramDetected)])] ++
    (if reached then [] else [(ascii "error", .str (unreachable server))]) ++
    [(ascii "suggestions", .arr ((suggested pulled).map (suggestionBody server.hardware)))])

/-- Ollama's reply to `/api/tags` is its status and its body, if there is one. -/
def getModels (tags : Option (Nat × Bytes)) : Handler Response :=
  match tags.filter fun reply => reply.1 = 200 with
  | some reply => respond 200 (modelsBody server true (listedModels server reply.2))
  | none => respond 502 (modelsBody server false [])

def postPull (body : Bytes) : Handler Response :=
  withBody server body fun parsed => do
    let model ← value (parsed.valueStr "model" [])
    if model = [] then respond 400 (errorBody (ascii "missing 'model'"))
    else return .stream (ascii "/api/pull") (.obj [(ascii "model", .str model), (ascii "stream", .bool true)])

def allFacts : Handler Response := do
  let store ← get
  respond 200 (MemoryStore.document store.facts)

def postMemory (body : Bytes) : Handler Response :=
  withBody server body fun parsed => do
    let fact ← value (parsed.valueStr "fact" [])
    let _ ← memory (addFact server.setting fact)
    allFacts

def deleteMemory (body : Bytes) : Handler Response :=
  withBody server body fun parsed => do
    let fact ← value (parsed.valueStr "fact" [])
    let _ ← memory (removeFact server.setting fact)
    allFacts

/-- `empty` of a JSON value. -/
def isEmpty : Json → Bool
  | .null => true
  | .arr items => items.isEmpty
  | .obj fields => fields.isEmpty
  | _ => false

/-- `back` of a JSON value that is not empty. -/
def back : Json → Json
  | .arr items => items.getLast?.getD .null
  | .obj fields => (fields.getLast?.map Prod.snd).getD .null
  | other => other

def latest (messages : Json) : Except JsonError (Option Bytes) :=
  if isEmpty messages then .ok none
  else
    match (back messages).valueStr "role" [] with
    | .error e => .error e
    | .ok role =>
        if role = ascii "user" then ((back messages).valueStr "content" []).map some else .ok none

def learn (facts : List Bytes) : Handler Unit :=
  facts.forM fun fact => do
    let _ ← memory (addFact server.setting fact)

def systemContent (facts : List Bytes) : Bytes :=
  ascii "Known facts about the user, remembered from earlier conversations:\n" ++
    facts.flatMap fun fact => ascii "- " ++ fact ++ ascii "\n"

def systemMessage (facts : List Bytes) : Json :=
  .obj [(ascii "role", .str (ascii "system")), (ascii "content", .str (systemContent facts))]

def withFacts (facts : List Bytes) (messages : Json) : Handler Json :=
  if facts = [] then return messages
  else
    match messages with
    | .arr items => return .arr (systemMessage facts :: items)
    | _ => throw .insert

def chatBody (model : Bytes) (messages : Json) : Json :=
  .obj [(ascii "model", .str model), (ascii "messages", messages), (ascii "stream", .bool true)]

def postChat (body : Bytes) : Handler Response :=
  withBody server body fun parsed => do
    let messages ← value (parsed.valueJson "messages" (.arr []))
    let said ← value (latest messages)
    learn server (said.elim [] extractFacts)
    let store ← get
    let messages ← withFacts store.facts messages
    let model ← value (parsed.valueStr "model" server.config.defaultModel)
    return .stream (ascii "/api/chat") (chatBody model messages)

inductive Request where
  | models (tags : Option (Nat × Bytes))
  | pull (body : Bytes)
  | facts
  | addFact (body : Bytes)
  | removeFact (body : Bytes)
  | chat (body : Bytes)

def handle : Request → Handler Response
  | .models tags => getModels server tags
  | .pull body => postPull server body
  | .facts => allFacts
  | .addFact body => postMemory server body
  | .removeFact body => deleteMemory server body
  | .chat body => postChat server body

/-- The memory after a request, whatever became of it. -/
def serve (store : Store) (request : Request) : Store := finalState (handle server request store)

/-- The memory after some requests, from the file that the server found. -/
def served (file : Option Bytes) (requests : List Request) : Store :=
  requests.foldl (serve server) (MemoryStore.opened server.setting.codec.parser file)

end CppCoder.ChatHandlers
