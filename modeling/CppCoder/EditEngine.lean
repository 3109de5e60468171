import CppCoder.Editor
import CppCoder.Seeding

/-! Edit mode: an editor proposes changes area by area, and each finding's edits are collected or
applied to disk before the next task. -/

namespace CppCoder.EditEngine
open Support Utf8 Paths JsonValue Program CppCoder.Types PatchApplier CodebaseScanner Session
  OllamaClient Agent
open EngineLoop Seeding

structure EditEngineConfig extends EngineConfig where
  apply : Bool := false

structure Engine where
  client : OllamaConfig
  scanner : Scanner
  root : Path
  config : EditEngineConfig

structure EditRunResult where
  anyEdits : Bool := false
  proposedEdits : List ProposedEdit := []
  applyOutcome : ApplyOutcome := {}
  iterationsRun : Nat := 0
  wallClock : Int := 0
  terminationReason : Bytes := []
  deriving DecidableEq

def outcomeToString : EditOutcome → Bytes
  | .success => ascii "success"
  | .partialWithDirections => ascii "partial"
  | .noChangeNeeded => ascii "no_change"

def editsToJson (edits : List ProposedEdit) : Json :=
  .arr (edits.map fun e => .obj [(ascii "path", .str e.path), (ascii "description", .str e.description)])

def editResult (task : Task) (finding : EditFinding) : Json :=
  event "edit_result" [("id", .str task.id), ("outcome", .str (outcomeToString finding.outcome)),
    ("summary", .str finding.summary), ("edits", editsToJson finding.edits),
    ("directions", directionsToJson finding.suggestedDirections),
    ("duration_ms", .integer finding.duration)]

def editApplied (task : Task) (path : Bytes) : Json :=
  event "edit_applied" [("id", .str task.id), ("path", .str path)]

def editRejected (reason : String) (task : Task) (path : Bytes) : Json :=
  event "edit_rejected" [("id", .str task.id), ("path", .str path), ("reason", .str (ascii reason))]

def editProposed (task : Task) (edit : ProposedEdit) : Json :=
  event "edit_proposed" [("id", .str task.id), ("path", .str edit.path),
    ("description", .str edit.description)]

def complete (result : EditRunResult) : Json :=
  event "complete" [("applied", .bool result.anyEdits), ("reason", .str result.terminationReason),
    ("iterations", .integer result.iterationsRun), ("wall_clock_ms", .integer result.wallClock)]

def keywordPrompt (maxInitialKeywords : Nat) (taskDescription : Bytes) : Bytes :=
  ascii "Extract up to " ++ decimal maxInitialKeywords ++
  ascii " short keywords or identifier-like terms from this coding task that would help " ++
  ascii "locate the relevant code in a codebase (function names, type names, file names, " ++
  ascii "domain terms). Respond with ONLY a JSON array of strings, no prose, no markdown " ++
  ascii "fences.\n\nTask: " ++
  taskDescription

structure Gathered where
  proposedEdits : List ProposedEdit := []
  applyOutcome : ApplyOutcome := {}

variable (engine : Engine) (env : Environment)

def Engine.setup : Setup := ⟨engine.client, engine.scanner, engine.config.tokenBudgetPerTask⟩

def investigate (task : Task) : Prog EditFinding := do
  let finding ← Editor.execute env engine.setup task
  emit (editResult task finding)
  return finding

def applyFinding (task : Task) (edits : List ProposedEdit) (outcome : ApplyOutcome) :
    Prog ApplyOutcome := do
  let applied ← applyEdits env engine.root edits
  record (.applied edits applied)
  applied.writtenPaths.forM fun p => emit (editApplied task p)
  applied.rejectedPaths.forM fun p => emit (editRejected "path escapes codebase root" task p)
  applied.errors.forM fun e => emit (editRejected "write error" task e)
  return { writtenPaths := outcome.writtenPaths ++ applied.writtenPaths
           rejectedPaths := outcome.rejectedPaths ++ applied.rejectedPaths
           errors := outcome.errors ++ applied.errors }

def settle (task : Task) (finding : EditFinding) (gathered : Gathered) : Prog Gathered := do
  if (finding.outcome = .success ∨ finding.outcome = .partialWithDirections) ∧ finding.edits ≠ [] then
    if engine.config.apply then
      let applyOutcome ← applyFinding engine env task finding.edits gathered.applyOutcome
      return { gathered with applyOutcome }
    else
      finding.edits.forM fun e => emit (editProposed task e)
      return { gathered with proposedEdits := gathered.proposedEdits ++ finding.edits }
  else return gathered

def followUps (finding : EditFinding) : List Task :=
  if finding.outcome = .partialWithDirections then finding.suggestedDirections else []

def steps : Steps EditFinding Gathered where
  investigate := investigate engine env
  settle := settle engine env
  followUps := followUps

def seeds (taskDescription : Bytes) (fs : Support.Disk.FileSystem) (keywords : List Bytes) : List Task :=
  seedInitialTasks engine.scanner fs "edit-seed"
    "Made the change described in the task, fully and correctly, across every file that needed it."
    taskDescription keywords

def endingReason : Ending → Bytes
  | .drained => ascii "task queue drained"
  | .maxIterations => ascii "max iterations reached"
  | .wallClock => ascii "wall clock budget exhausted"

def conclude (engineStart : Int) (progress : Progress Gathered) (ending : Ending) : Prog EditRunResult := do
  let stop ← now env
  let gathered := progress.gathered
  let result : EditRunResult :=
    { anyEdits := !gathered.proposedEdits.isEmpty || !gathered.applyOutcome.writtenPaths.isEmpty
      proposedEdits := gathered.proposedEdits
      applyOutcome := gathered.applyOutcome
      iterationsRun := progress.iterations
      wallClock := toMilliseconds (stop - engineStart)
      terminationReason := endingReason ending }
  emit (complete result)
  return result

def run (taskDescription : Bytes) : Prog EditRunResult := do
  let engineStart ← now env
  emit (event "task" [("task", .str taskDescription)])
  let keywords ← extractKeywords env engine.client engine.config.maxInitialKeywords
    (keywordPrompt engine.config.maxInitialKeywords taskDescription) taskDescription
  emit (event "keywords_extracted" [("keywords", .arr (keywords.map .str))])
  let fs ← (fun w : World => w.disk.fs) <$> get
  let seedTasks := seeds engine taskDescription fs keywords
  if seedTasks = [] then
    let stop ← now env
    let result : EditRunResult :=
      { terminationReason :=
        ascii "no initial edit target found from task keywords (task keywords not present in codebase)"
        wallClock := toMilliseconds (stop - engineStart) }
    emit (complete result)
    return result
  else
    let queue ← queueSeeds seedTasks
    let (progress, ending) ← (steps engine env).explore env engine.config.toEngineConfig engineStart
      engine.config.maxIterations.toNat { queue, iterations := 0, gathered := {} }
    conclude env engineStart progress ending

end CppCoder.EditEngine
