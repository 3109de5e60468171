import CppCoder.ChatHandlers
import CppCoder.EventsFile

/-! `replay_demo`, which renders an events file in the terminal. Only what it prints is modelled: with `--step`
Enter is taken to be pressed after each prompt, and without it no time passes between two events. -/

namespace CppCoder.ReplayDemo
open Support Utf8 Program JsonValue EventsFile ChatHandlers

def escape (code : String) : Bytes := [27] ++ ascii code

def kReset : Bytes := escape "[0m"

def kBold : Bytes := escape "[1m"

def kDim : Bytes := escape "[2m"

def kBlue : Bytes := escape "[34m"

def kGreen : Bytes := escape "[32m"

def kRed : Bytes := escape "[31m"

def kYellow : Bytes := escape "[33m"

def kCyan : Bytes := escape "[36m"

abbrev Out := EStateM JsonError Bytes

def print (text : Bytes) : Out Unit := modify fun printed => printed ++ text

structure Terminal where
  color : Bool
  seconds : Int → Bytes

def Terminal.code (t : Terminal) (code : Bytes) : Bytes := if t.color then code else []

/-- The number that `get` makes of a value, before it is cut to the bits of its type. -/
def arithmetic : Json → Option Int
  | .unsigned n => some n.toNat
  | .integer i => some i
  | .float x => some (x.num.tdiv x.den)
  | .bool b => some (if b then 1 else 0)
  | _ => none

/-- `value` with a default that is an integer of so many bits. -/
def valueInt (bits : Nat) (parsed : Json) (key : String) (default : Int) : Except JsonError Int :=
  match parsed.member key with
  | .error e => .error e
  | .ok none => .ok default
  | .ok (some member) =>
      match arithmetic member with
      | none => .error .wrongType
      | some n => .ok (n.bmod (2 ^ bits))

def getString : Json → Except JsonError Bytes
  | .str text => .ok text
  | _ => .error .wrongType

def shortLabel (area : Bytes) : Bytes :=
  if area.contains 47 then (area.reverse.takeWhile fun c => c ≠ 47).reverse else area

section
variable (t : Terminal)

def renderQuestion (evt : Json) : Out Unit := do
  print (ascii "\n" ++ t.code kBold ++ t.code kCyan ++ ascii "QUESTION  " ++ t.code kReset)
  print (← orThrow (evt.valueStr "question" []))
  print (ascii "\n")

def renderKeyword (k : Json) : Out Unit := do
  print (t.code kBlue)
  print (← orThrow (getString k))
  print (t.code kReset)

def renderWords : List Json → Out Unit
  | [] => pure ()
  | k :: rest => do
      renderKeyword t k
      rest.forM fun k => do
        print (ascii ", ")
        renderKeyword t k

def renderKeywords (evt : Json) : Out Unit := do
  print (t.code kDim ++ ascii "  keywords: " ++ t.code kReset)
  renderWords t (← orThrow (evt.valueJson "keywords" (.arr []))).items
  print (ascii "\n")

def renderQueued (evt : Json) : Out Unit := do
  print (t.code kDim ++ ascii "  + queued  " ++ t.code kReset)
  print (← orThrow (evt.valueStr "id" []))
  print (ascii "  " ++ t.code kDim)
  print (shortLabel (← orThrow (evt.valueStr "target_area" [])))
  print (t.code kReset ++ ascii "\n")

def renderStarted (evt : Json) : Out Unit := do
  print (t.code kBlue ++ ascii ">> running " ++ t.code kReset ++ t.code kBold)
  print (← orThrow (evt.valueStr "id" []))
  print (t.code kReset ++ ascii "  ")
  print (shortLabel (← orThrow (evt.valueStr "target_area" [])))
  print (ascii " ...\n")

def outcomeColor (outcome : Bytes) : Bytes :=
  if outcome = ascii "success" then kGreen else if outcome = ascii "no_information" then kDim else kYellow

def renderWorker (evt : Json) : Out Unit := do
  let outcome ← orThrow (evt.valueStr "outcome" [])
  print (ascii "   worker:  " ++ t.code (outcomeColor outcome) ++ outcome ++ t.code kReset ++ t.code kDim ++
    ascii "  (")
  print (toText (← orThrow (valueInt 32 evt "duration_ms" 0)))
  print (ascii "ms, ")
  print (decimal (← orThrow (evt.valueJson "directions" (.arr []))).items.length)
  print (ascii " direction(s) proposed)" ++ t.code kReset ++ ascii "\n")

def renderKept (d : Json) : Out Unit := do
  print (t.code kDim ++ ascii "              -> " ++ t.code kReset)
  print (shortLabel (← orThrow (d.valueStr "target_area" [])))
  print (ascii "\n")

def renderJudge (evt : Json) : Out Unit := do
  let kept ← orThrow (evt.valueJson "kept_directions" (.arr []))
  let rejected ← orThrow (valueInt 32 evt "rejected_count" 0)
  print (ascii "   judge:   kept=" ++ t.code kGreen ++ decimal kept.items.length ++ t.code kReset ++
    ascii "  rejected=" ++ (if rejected > 0 then t.code kRed else t.code kDim) ++ toText rejected ++
    t.code kReset ++ ascii "\n")
  kept.items.forM (renderKept t)

def renderProgress (evt : Json) : Out Unit := do
  print (t.code kGreen ++ ascii "   [draft answer] " ++ t.code kReset)
  print (← orThrow (evt.valueStr "summary" []))
  print (ascii "\n")

def renderFound (evt : Json) : Out Unit := do
  let answer ← orThrow (evt.valueStr "answer" [])
  print (ascii "\n" ++ t.code kBold ++ t.code kGreen ++ ascii "ANSWER FOUND" ++ t.code kReset ++
    ascii "\n  " ++ answer ++ ascii "\n")

def renderComplete (evt : Json) : Out Unit := do
  let answered ← orThrow (evt.valueBool "answered" false)
  print (ascii "\n" ++ t.code kBold ++ (if answered then t.code kGreen else t.code kRed) ++ ascii "DONE" ++
    t.code kReset ++ ascii "  " ++ (if answered then ascii "answered" else ascii "no answer") ++
    t.code kDim ++ ascii "  (")
  print (toText (← orThrow (valueInt 32 evt "iterations" 0)))
  print (ascii " iteration(s), ")
  print (t.seconds (← orThrow (valueInt 64 evt "wall_clock_ms" 0)))
  print (ascii "s)  reason: ")
  print (← orThrow (evt.valueStr "reason" []))
  print (t.code kReset ++ ascii "\n\n")

/-- The branches of `RenderEvent`. -/
def branches : List (String × (Json → Out Unit)) :=
  [("question", renderQuestion t), ("keywords_extracted", renderKeywords t), ("task_queued", renderQueued t),
    ("task_started", renderStarted t), ("worker_result", renderWorker t), ("judge_result", renderJudge t),
    ("answer_progress", renderProgress t), ("answer_found", renderFound t), ("complete", renderComplete t)]

def renderEvent (evt : Json) : Out Unit := do
  let type ← orThrow (evt.valueStr "event" [])
  match (branches t).find? fun branch => ascii branch.1 = type with
  | some branch => branch.2 evt
  | none =>
      print (t.code kDim ++ ascii "  (unrecognised event: " ++ type ++ ascii ")" ++ t.code kReset ++ ascii "\n")

/-- How `main` ends: with an exit code, or by an exception that nobody catches. -/
inductive Exit where
  | code (n : Nat) (printed : Bytes)
  | terminated (e : JsonError) (printed : Bytes)

def header (eventsPath : Bytes) (step : Bool) (count : Nat) : Bytes :=
  t.code kDim ++ ascii "Replaying " ++ decimal count ++ ascii " event(s) from " ++ eventsPath ++
    (if step then ascii "  [step mode]" else []) ++ t.code kReset ++ ascii "\n"

/-- What `WaitForStep` prints, if it is called at all. -/
def prompt (step : Bool) : Bytes :=
  if step then t.code kDim ++ ascii "  -- press Enter to continue --" ++ t.code kReset else []

/-- The loop of `main`: no prompt follows the last event. -/
def play (step : Bool) : List Json → Out Unit
  | [] => pure ()
  | [evt] => renderEvent t evt
  | evt :: next :: rest => do
      renderEvent t evt
      print (prompt t step)
      play step (next :: rest)

/-- `main` behind its options. Without a file there is nothing to open. -/
def replay (parser : Parser) (eventsPath : Bytes) (step : Bool) (file : Option Bytes) : Exit :=
  match file with
  | none => .code 1 []
  | some file =>
      let events := loadEvents parser file
      if events.isEmpty then .code 1 []
      else
        match play t step events (header t eventsPath step events.length) with
        | .ok _ printed => .code 0 printed
        | .error e printed => .terminated e printed

end

/-! ### What is printed -/

/-- The program prints a text and throws nothing. -/
def Prints (program : Out Unit) (text : Bytes) : Prop := ∀ printed, program printed = .ok () (printed ++ text)

theorem prints_print (text : Bytes) : Prints (print text) text := fun _ => rfl

theorem prints_nothing : Prints (pure ()) [] := fun printed => by
  rw [List.append_nil]
  rfl

theorem Prints.bind {first : Out Unit} {second : Unit → Out Unit} {text more : Bytes} (one : Prints first text)
    (two : Prints (second ()) more) : Prints (first >>= second) (text ++ more) := by
  intro printed
  change EStateM.bind first second printed = _
  unfold EStateM.bind
  rw [one printed]
  dsimp only
  rw [two, List.append_assoc]

theorem prints_value {α : Type} {result : Except JsonError α} {a : α} {next : α → Out Unit} {text : Bytes}
    (found : result = .ok a) (prints : Prints (next a) text) : Prints (orThrow result >>= next) text := by
  subst found
  exact prints

theorem prints_forM {α : Type} {body : α → Out Unit} {items : List α} {texts : List Bytes}
    (each : List.Forall₂ (fun item text => Prints (body item) text) items texts) :
    Prints (items.forM body) texts.flatten := by
  induction each with
  | nil => exact prints_nothing
  | cons first _ ih => exact first.bind ih

end CppCoder.ReplayDemo
