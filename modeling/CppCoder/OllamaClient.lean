import CppCoder.Session

/-! Requests to the model. The body is serialised before the request is made and outside the block
that handles exceptions. -/

namespace CppCoder.OllamaClient
open Support Utf8 JsonValue Program Session

structure OllamaConfig where
  model : Bytes := ascii "qwen2.5-coder:7b"
  temperature : Rat := 1 / 5
  numCtx : Int := 32768

def requestBody (config : OllamaConfig) (prompt systemPrompt : Bytes) : Json :=
  let system := if systemPrompt = [] then [] else [(ascii "system", Json.str systemPrompt)]
  .obj ([(ascii "model", .str config.model), (ascii "prompt", .str prompt),
    (ascii "stream", .bool false),
    (ascii "options", .obj [(ascii "temperature", .float config.temperature),
      (ascii "num_ctx", .integer config.numCtx)])] ++ system)

def responseText (parser : Parser) : HttpOutcome → Option Bytes
  | .failed => none
  | .response status body =>
      if status ≠ 200 then none
      else match parser.parse body with
        | none => none
        | some parsed =>
            match parsed.valueStr "response" [] with
            | .ok text => some text
            | .error _ => none

def generate (env : Environment) (config : OllamaConfig) (prompt systemPrompt : Bytes) :
    Prog (Option Bytes) :=
  if (requestBody config prompt systemPrompt).dumpable then
    modifyGet fun w => (responseText env.parser (env.http w.calls), { w with calls := w.calls + 1 })
  else throw .type

theorem requestBody_dumpable (config : OllamaConfig) (prompt systemPrompt : Bytes) :
    (requestBody config prompt systemPrompt).dumpable = true ↔
      Valid config.model ∧ Valid prompt ∧ Valid systemPrompt := by
  unfold requestBody
  by_cases none : systemPrompt = []
  · simp [none]
  · simp [none]

theorem valid_responseText {parser : Parser} {outcome : HttpOutcome} {text : Bytes}
    (replied : responseText parser outcome = some text) : Valid text := by
  cases outcome with
  | failed => cases replied
  | response status body =>
    simp only [responseText] at replied
    split_ifs at replied with bad
    cases parsing : parser.parse body with
    | none => simp [parsing] at replied
    | some parsed =>
      simp only [parsing] at replied
      cases taken : parsed.valueStr "response" [] with
      | error e => simp [taken] at replied
      | ok found =>
        rw [taken] at replied
        cases replied
        exact valid_valueStr (parser.dumpable body parsed parsing) valid_nil taken

def responseBody (text : Bytes) : Bytes :=
  ascii "\x7b\"response\": \"" ++
    (text.flatMap fun c => if c = 34 ∨ c = 92 then [92, c] else [c]) ++ ascii "\"\x7d"

/-- What a parser knows of a server that sends these texts: their bodies and their values. -/
def exchanges (replies : List (Bytes × Json)) : List (Bytes × Json) :=
  replies.flatMap fun reply => [(responseBody reply.1, .obj [(ascii "response", .str reply.1)]), reply]

theorem runs_generate {env : Environment} {config : OllamaConfig} {prompt systemPrompt : Bytes} {w : World}
    {done : Option Bytes → World → Prop} {failed : Exn → World → Prop}
    (clean : (requestBody config prompt systemPrompt).dumpable = true →
      done (responseText env.parser (env.http w.calls)) { w with calls := w.calls + 1 })
    (dirty : ¬ (requestBody config prompt systemPrompt).dumpable = true → failed .type w) :
    Runs (generate env config prompt systemPrompt) w done failed := by
  unfold generate
  split_ifs with dumps
  · exact Runs.modifyGet (clean dumps)
  · exact Runs.throw (dirty dumps)

theorem keeps_generate {condition : Act → Prop} (env : Environment) (config : OllamaConfig)
    (prompt systemPrompt : Bytes) :
    Keeps (Leaves condition) (generate env config prompt systemPrompt) :=
  fun w => runs_generate (fun _ => .of_same rfl) fun _ => Leaves.refl w

end CppCoder.OllamaClient
