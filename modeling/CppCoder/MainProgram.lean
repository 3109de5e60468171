import CppCoder.CommandLine
import CppCoder.EditEngine
import CppCoder.EventsFile
import CppCoder.Logging
import CppCoder.ReplayDemo
import CppCoder.ResearchEngine

/-! `main` of `cppcoder`: the arguments choose a mode, an engine runs, and what came of it is printed and made
an exit code. The log and the events file are emptied on the tree before the run, and what was written to the
events file is there at the end: a run that reads its own output back is not modelled. The text of the log and the
look into the model store are left out. -/

namespace CppCoder.MainProgram
open Support Utf8 Paths JsonValue Program CppCoder.Types CodebaseScanner Session OllamaClient CommandLine
open ChatHandlers (toText ChatServerConfig)
open Logging (Opened initLogging openTruncated)

/-- What the program finds where it runs. -/
structure Host where
  /-- What answers at a host and a port. -/
  server : Bytes → Int → Environment
  dump : Json → Bytes
  /-- How many bytes a file that is opened for writing takes, if the system lets it be opened. -/
  room : Bytes → Option Nat
  /-- How many directories can be made for the log file. -/
  directories : Nat
  defaultWebRoot : Bytes

def namesModel (name : Bytes) : List Json → Bool
  | [] => false
  | m :: rest =>
      match m.valueStr "name" [] with
      | .error _ => false
      | .ok found => found = name || namesModel name rest

def listsModel (parser : Parser) (name : Bytes) : HttpOutcome → Bool
  | .failed => false
  | .response status body =>
      if status ≠ 200 then false
      else match parser.parse body with
        | none => false
        | some parsed =>
            match parsed.valueJson "models" (.arr []) with
            | .error _ => false
            | .ok models => namesModel name models.items

def isModelAvailable (env : Environment) (config : OllamaConfig) : Prog Bool :=
  modifyGet fun w => (listsModel env.parser config.model (env.http w.calls), { w with calls := w.calls + 1 })

def printedRun (title : String) (terminationReason : Bytes) (iterationsRun : Nat) (wallClock : Int)
    (first last : Bytes) : Bytes :=
  ascii "\n=== " ++ ascii title ++ ascii " complete ===\n" ++ first ++ ascii "Termination: " ++ terminationReason ++
    ascii "\nIterations: " ++ decimal iterationsRun ++ ascii "\nWall clock: " ++ toText wallClock ++
    ascii " ms\n" ++ last ++ ascii "\n"

def printedResearch (result : ResearchEngine.ResearchResult) : Bytes :=
  printedRun "Research" result.terminationReason result.iterationsRun result.wallClock
    (ascii "Answered: " ++ (if result.answered then ascii "yes" else ascii "no") ++ ascii "\n")
    (ascii "Successful findings: " ++ decimal result.successfulFindings.length ++ ascii "\n") ++
  if result.answered then ascii "Answer:\n" ++ result.answer ++ ascii "\n"
  else ascii "No answer produced. Findings gathered along the way:\n" ++
    ResearchEngine.findingLines result.successfulFindings

def printedPaths (title : String) (paths : List Bytes) : Bytes :=
  ascii title ++ ascii " (" ++ decimal paths.length ++ ascii "):\n" ++
    paths.flatMap fun p => ascii "  " ++ p ++ ascii "\n"

def printedEdit (e : ProposedEdit) : Bytes :=
  ascii "--- " ++ e.path ++ ascii " ---\n" ++
    (if e.description = [] then [] else ascii "(" ++ e.description ++ ascii ")\n") ++
    e.newContent ++ ascii "\n\n"

def printedEdits (applyEdits : Bool) (result : EditEngine.EditRunResult) : Bytes :=
  printedRun "Edit run" result.terminationReason result.iterationsRun result.wallClock
    (ascii "Mode: " ++ (if applyEdits then ascii "apply" else ascii "dry-run") ++ ascii "\n") [] ++
  if applyEdits then
    printedPaths "Written" result.applyOutcome.writtenPaths ++
    (if result.applyOutcome.rejectedPaths = [] then []
      else ascii "\n" ++ printedPaths "Rejected" result.applyOutcome.rejectedPaths) ++
    (if result.applyOutcome.errors = [] then [] else ascii "\n" ++ printedPaths "Errors" result.applyOutcome.errors)
  else if result.proposedEdits = [] then ascii "No edits proposed.\n"
  else ascii "Proposed edits (" ++ decimal result.proposedEdits.length ++
    ascii ") -- rerun with --apply to write them:\n\n" ++ result.proposedEdits.flatMap printedEdit

/-! ### The program -/

structure ServerConfig extends ChatServerConfig where
  bindHost : Bytes
  bindPort : Int
  webRoot : Bytes
  memoryFilePath : Bytes

/-- How the program ends: with an exit code, by an exception that nobody catches, or not while it serves. -/
inductive Ended where
  | exited (code : Nat) (printed : Bytes)
  | aborted
  | serving (config : ServerConfig)

/-- How it ended, what is in the events file if one was written, and the world it leaves. -/
structure Outcome where
  ended : Ended
  file : Option Bytes := none
  world : World

variable (host : Host)

def environment (args : Arguments) : Environment := host.server args.ollamaHost args.ollamaPort

def researchEngine (args : Arguments) : ResearchEngine.Engine where
  client := args.ollamaConfig
  scanner := ⟨Support.Paths.ofBytes args.codebasePath, defaultExtensions⟩
  config := args.engineConfig

def editEngine (args : Arguments) : EditEngine.Engine where
  client := args.ollamaConfig
  scanner := ⟨Support.Paths.ofBytes args.codebasePath, defaultExtensions⟩
  root := Support.Paths.ofBytes args.codebasePath
  config := { args.engineConfig with apply := args.applyEdits }

def researchMode (args : Arguments) : Prog ResearchEngine.ResearchResult := do
  let _ ← isModelAvailable (environment host args) args.ollamaConfig
  ResearchEngine.research (researchEngine args) (environment host args) args.question

def editMode (args : Arguments) : Prog EditEngine.EditRunResult := do
  let _ ← isModelAvailable (environment host args) args.ollamaConfig
  EditEngine.run (editEngine args) (environment host args) args.task

def openLog (args : Arguments) (fs : Disk.FileSystem) : Opened :=
  if args.logFilePath = [] then { fs }
  else initLogging fs host.directories (host.room args.logFilePath).isSome args.logFilePath

def openEvents (args : Arguments) (fs : Disk.FileSystem) : Opened :=
  if args.eventsFilePath = [] ∨ host.room args.eventsFilePath = none then { fs }
  else openTruncated fs args.eventsFilePath

/-- What is in the events file at the end: the events, as far as there was room for them. A file that an edit or
the log was written to as well is not modelled. -/
def written (args : Arguments) (log events : Opened) (w : World) : Option Bytes :=
  match events.file, host.room args.eventsFilePath with
  | some file, some room =>
      if log.file = some file ∨ w.disk.touched.contains file then none
      else some ((EventsFile.eventsFile host.dump w.events).take room)
  | _, _ => none

def onTree (w : World) (fs : Disk.FileSystem) : World := { w with disk := { w.disk with fs } }

/-- The tree with what was written to the events file, unless that is a device. -/
def stored (events : Opened) (written : Option Bytes) (fs : Disk.FileSystem) : Disk.FileSystem :=
  match events.file, written with
  | some file, some bytes =>
      match fs.kind file with
      | some (.leaf (.file _ _)) => fs.writeFile file bytes
      | _ => fs
  | _, _ => fs

def entered (w : World) (fs : Disk.FileSystem) : World :=
  { w with events := [], disk := { w.disk with fs, touched := [] } }

/-- A run of an engine, from the events file on that is opened for it. -/
def run {α : Type} (args : Arguments) (code : α → Nat) (printed : α → Bytes) (mode : Prog α) (log : Opened)
    (w : World) : Outcome :=
  let events := openEvents host args w.disk.fs
  let result := mode (entered w events.fs)
  let after := finalState result
  let file := written host args log events after
  let ended := match result with
    | .ok result _ => .exited (code result) (printed result)
    | .error _ _ => .aborted
  { ended, file, world := onTree after (stored events file after.disk.fs) }

/-- `main` with its arguments read and the log file open. -/
def serveOrRun (args : Arguments) (log : Opened) (w : World) : Outcome :=
  if args.serveMode then
    { ended := .serving
        { bindHost := args.serveHost
          bindPort := args.servePort
          ollamaHost := args.ollamaHost
          ollamaPort := args.ollamaPort
          defaultModel := args.ollamaConfig.model
          webRoot := if args.webRoot = [] then host.defaultWebRoot else args.webRoot
          memoryFilePath := args.memoryFilePath }
      world := w }
  else if args.task ≠ [] then
    if args.codebasePath = [] then { ended := .exited 1 [], world := w }
    else run host args (fun result => if result.anyEdits then 0 else 2) (printedEdits args.applyEdits)
      (editMode host args) log w
  else if args.question = [] ∨ args.codebasePath = [] then { ended := .exited 1 [], world := w }
  else run host args (fun result => if result.answered then 0 else 2) printedResearch
    (researchMode host args) log w

/-- Nothing is done before all arguments are read. -/
def main (argv : List Bytes) (w : World) : Outcome :=
  match parseArguments argv with
  | .error .help => { ended := .exited 0 [], world := w }
  | .error (.conversion _) => { ended := .aborted, world := w }
  | .error _ => { ended := .exited 1 [], world := w }
  | .ok args =>
      let log := openLog host args w.disk.fs
      if args.logFilePath ≠ [] ∧ log.file = none then { ended := .aborted, world := onTree w log.fs }
      else serveOrRun host args log (onTree w log.fs)

end CppCoder.MainProgram
