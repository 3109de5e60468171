import CppCoder.Viewer
import CppCoder.Support.Machine
import CppCoder.Support.Timers

/-! The page that replays event logs, over time: a log is played event by event, each from a timer that the
one before has set, and the buttons can be pressed in between. The drawing itself, the status line, the
code tree and the speed are left out. -/

namespace CppCoder.ViewerSession
open Support Utf8 JsonValue Session Viewer

inductive PipeCard where
  | queued
  | workers
  | judge
  | newTasks
  deriving DecidableEq

/-- What stands beside the graph. The question is a placeholder first, and the callouts are hidden. -/
structure Panels where
  questionText : Option Bytes := none
  keywordList : List Bytes := []
  currentCallout : Option Bytes := none
  answerCallout : Option Bytes := none
  seenAreas : List Bytes := []
  active : Option PipeCard := none
  deriving DecidableEq

/-- `Set.add`. -/
def addArea (areas : List Bytes) (area : Bytes) : List Bytes :=
  if areas.contains area then areas else areas ++ [area]

def textOf : Json → Bytes
  | .str text => text
  | _ => []

def applyPanels (p : Panels) (evt : Json) : Panels :=
  let area := stringField "target_area" evt
  if eventName evt = ascii "question" then { p with questionText := some (stringField "question" evt) }
  else if eventName evt = ascii "keywords_extracted" then
    { p with keywordList := (listField "keywords" evt).map textOf, active := some .queued }
  else if eventName evt = ascii "task_queued" then { p with active := some .newTasks }
  else if eventName evt = ascii "task_started" then
    { p with
      seenAreas := addArea p.seenAreas area
      currentCallout := some (if shortLabel area = [] then area else shortLabel area)
      active := some .workers }
  else if eventName evt = ascii "worker_result" then { p with active := some .workers }
  else if eventName evt = ascii "judge_result" then { p with active := some .judge }
  else if eventName evt = ascii "answer_found" then
    { p with answerCallout := some (stringField "answer" evt), currentCallout := none }
  else if eventName evt = ascii "complete" then { p with currentCallout := none, active := none }
  else p

structure Display where
  graph : Graph := {}
  panels : Panels := {}

/-- What becomes of the drawing at an event: the code may throw halfway, and it may not end. -/
inductive Applied (γ : Type) where
  | done (drawing : γ)
  | threw (drawing : γ)
  | hangs

structure Screen (γ ε : Type) where
  blank : γ
  applyEvent : γ → ε → Applied γ
  buildDemoEvents : List ε

structure Page (γ ε : Type) where
  drawing : γ
  queue : List ε := []
  playing : Bool := false
  timer : Option Nat := none
  timers : Timers := .start
  hung : Bool := false

inductive Event (ε : Type) where
  | fired (timer : Nat)
  | demo
  | loaded (events : List ε)
  | reset

section
variable {γ ε : Type} (screen : Screen γ ε)

def stepPlayback (page : Page γ ε) : Page γ ε :=
  match page.queue with
  | [] => { page with playing := false }
  | evt :: queue =>
      match screen.applyEvent page.drawing evt with
      | .hangs => { page with queue, hung := true }
      | .threw drawing => { page with queue, drawing }
      | .done drawing =>
          if queue.isEmpty then { page with queue, drawing, playing := false }
          else
            { page with queue, drawing, timer := some page.timers.set.1, timers := page.timers.set.2 }

def resetAll (page : Page γ ε) : Page γ ε :=
  { page with
    timers := page.timers.clearVariable page.timer
    playing := false
    queue := []
    drawing := screen.blank }

def startPlayback (page : Page γ ε) (events : List ε) : Page γ ε :=
  stepPlayback screen { resetAll screen page with queue := events, playing := true }

def onload (page : Page γ ε) (events : List ε) : Page γ ε :=
  if events.isEmpty then page else startPlayback screen page events

def step (page : Page γ ε) (event : Event ε) : Option (Page γ ε) :=
  if page.hung then none
  else
    match event with
    | .fired timer =>
        if page.timers.pending.contains timer then
          some (stepPlayback screen { page with timers := page.timers.clear timer })
        else none
    | .demo => some (startPlayback screen page screen.buildDemoEvents)
    | .loaded events => some (onload screen page events)
    | .reset => some (resetAll screen page)

def opened : Page γ ε := { drawing := screen.blank }

end

def demoDirection (d : String × String) : Json :=
  .obj [(ascii "id", .str (ascii d.1)), (ascii "target_area", .str (ascii d.2))]

def runTask (id area outcome summary : String) (directions : List (String × String)) (keptIds : List String) :
    List Json :=
  let kept := directions.filter fun d => keptIds.contains d.1
  [event "task_started" [("id", .str (ascii id)), ("target_area", .str (ascii area))],
    event "worker_result" [("id", .str (ascii id)), ("outcome", .str (ascii outcome)),
      ("summary", .str (ascii summary)), ("directions", .arr (directions.map demoDirection)),
      ("duration_ms", .integer 900)],
    event "judge_result" [("id", .str (ascii id)), ("outcome", .str (ascii outcome)),
      ("summary", .str (ascii summary)), ("kept_directions", .arr (kept.map demoDirection)),
      ("rejected_count", .integer (directions.length - kept.length))]] ++
    kept.map (fun d => event "task_queued" [("id", .str (ascii d.1)), ("parent_id", .str (ascii id)),
      ("target_area", .str (ascii d.2))]) ++
    if outcome = "success" then
      [event "answer_progress" [("id", .str (ascii id)), ("summary", .str (ascii summary))]]
    else []

def buildDemoEvents : List Json :=
  [event "question" [("question", .str (ascii "How is encryption key derived for PDF documents?"))],
    event "keywords_extracted" [("keywords",
      .arr ([ascii "encryption", ascii "pdf", ascii "key", ascii "derive"].map .str))],
    event "task_queued" [("id", .str (ascii "seed")), ("parent_id", .str []),
      ("target_area", .str (ascii "(keyword probe: 6 files)"))]] ++
    runTask "seed" "(keyword probe: 6 files)" "partial" ""
      [("n1", "src/io/stream.cpp"), ("n2", "src/parser/document.cpp"), ("x1", "src/io/socket.cpp")]
      ["n1", "n2"] ++
    runTask "n1" "src/io/stream.cpp" "no_information" "" [] [] ++
    runTask "n2" "src/parser/document.cpp" "partial" ""
      [("n3", "src/crypto/crypto.cpp"), ("x2", "src/parser/tokenizer.cpp")] ["n3"] ++
    runTask "n3" "src/crypto/crypto.cpp" "partial" ""
      [("n4", "src/crypto/pkcs7_key.cpp"), ("x3", "src/crypto/rc4_legacy.cpp")] ["n4"] ++
    runTask "n4" "src/crypto/pkcs7_key.cpp" "partial" "" [("n5", "src/crypto/pdf_crypto.cpp")] ["n5"] ++
    runTask "n5" "src/crypto/pdf_crypto.cpp" "success" "Key derivation logic in pdf_crypto.cpp" [] [] ++
    [event "answer_found" [("answer", .str (ascii "The key for a PDF's encrypted stream is derived with a " ++
      ascii "PKCS#7-padded MD5/RC4 (or AES) chain seeded from the /O and /U dictionary entries and the document ID, " ++
      ascii "implemented in pdf_crypto.cpp."))],
    event "complete" [("answered", .bool true), ("reason", .str (ascii "task queue drained")),
      ("iterations", .integer 6), ("wall_clock_ms", .integer 41200)]]

def viewer : Screen Display Json where
  blank := {}
  applyEvent display evt :=
    match Viewer.applyEvent display.graph evt with
    | none => .hangs
    | some graph => .done ⟨graph, applyPanels display.panels evt⟩
  buildDemoEvents := buildDemoEvents

end CppCoder.ViewerSession
