import CppCoder.Judge
import CppCoder.Seeding
import CppCoder.Worker

/-! Research: workers investigate, the judge prunes, and the successful findings make the answer. -/

namespace CppCoder.ResearchEngine
open Support Utf8 JsonValue Program CppCoder.Types CodebaseScanner Session OllamaClient Agent
  EngineLoop Seeding

structure Engine where
  client : OllamaConfig
  scanner : Scanner
  config : EngineConfig

structure ResearchResult where
  answered : Bool := false
  answer : Bytes := []
  successfulFindings : List Finding := []
  iterationsRun : Nat := 0
  wallClock : Int := 0
  terminationReason : Bytes := []
  deriving DecidableEq

def outcomeToString : WorkerOutcome → Bytes
  | .success => ascii "success"
  | .partialWithDirections => ascii "partial"
  | .noInformation => ascii "no_information"

def workerResult (task : Task) (finding : Finding) : Json :=
  event "worker_result" [("id", .str task.id), ("outcome", .str (outcomeToString finding.outcome)),
    ("summary", .str finding.summary), ("directions", directionsToJson finding.suggestedDirections),
    ("duration_ms", .integer finding.duration)]

/-- The difference of two sizes, in the arithmetic of `size_t`. -/
def rejectedCount (raw finding : Finding) : UInt64 :=
  UInt64.ofNat raw.suggestedDirections.length - UInt64.ofNat finding.suggestedDirections.length

def judgeResult (task : Task) (raw finding : Finding) : Json :=
  event "judge_result" [("id", .str task.id), ("outcome", .str (outcomeToString finding.outcome)),
    ("summary", .str finding.summary),
    ("kept_directions", directionsToJson finding.suggestedDirections),
    ("rejected_count", .unsigned (rejectedCount raw finding))]

def complete (result : ResearchResult) : Json :=
  event "complete" [("answered", .bool result.answered), ("reason", .str result.terminationReason),
    ("iterations", .integer result.iterationsRun), ("wall_clock_ms", .integer result.wallClock)]

def keywordPrompt (maxInitialKeywords : Nat) (question : Bytes) : Bytes :=
  ascii "Extract up to " ++ decimal maxInitialKeywords ++
  ascii " short keywords or identifier-like terms from this question that would help " ++
  ascii "locate relevant code in a codebase (function names, type names, file names, " ++
  ascii "domain terms). Respond with ONLY a JSON array of strings, no prose, no markdown " ++
  ascii "fences.\n\nQuestion: " ++
  question

def findingLines (findings : List Finding) : Bytes :=
  findings.flatMap fun f => ascii "- [" ++ f.areaInvestigated ++ ascii "] " ++ f.summary ++ ascii "\n"

def synthesisPrompt (question : Bytes) (findings : List Finding) : Bytes :=
  ascii "You are synthesizing a final answer from research findings gathered across a " ++
  ascii "codebase.\n\nOriginal question: " ++
  question ++ ascii "\n\nFindings:\n" ++ findingLines findings ++
  ascii "\nWrite a clear, direct answer to the original question using only the findings " ++
  ascii "above. Plain text, no JSON, no markdown fences."

def synthesizeAnswer (env : Environment) (client : OllamaConfig) (question : Bytes)
    (findings : List Finding) : Prog Bytes := do
  match ← generate env client (synthesisPrompt question findings) [] with
  | some response => return response
  | none => return ascii "Synthesis call failed; raw findings:\n" ++ findingLines findings

variable (engine : Engine) (env : Environment)

def Engine.setup : Setup := ⟨engine.client, engine.scanner, engine.config.tokenBudgetPerTask⟩

def investigate (question : Bytes) (task : Task) : Prog Finding := do
  let rawFinding ← Worker.execute env engine.setup task
  emit (workerResult task rawFinding)
  let finding ← Judge.review env engine.client question rawFinding
  emit (judgeResult task rawFinding finding)
  return finding

def settle (task : Task) (finding : Finding) (successfulFindings : List Finding) : Prog (List Finding) := do
  if finding.outcome = .success then
    emit (event "answer_progress" [("id", .str task.id), ("summary", .str finding.summary)])
    return successfulFindings ++ [finding]
  else return successfulFindings

def followUps (finding : Finding) : List Task :=
  if finding.outcome = .partialWithDirections then finding.suggestedDirections else []

def steps (question : Bytes) : Steps Finding (List Finding) where
  investigate := investigate engine env question
  settle := settle
  followUps := followUps

def seeds (question : Bytes) (fs : Support.Disk.FileSystem) (keywords : List Bytes) : List Task :=
  seedInitialTasks engine.scanner fs "seed"
    "Found information in the code that directly and fully answers the question above."
    question keywords

def endingReason : Ending → Bytes
  | .drained => []
  | .maxIterations => ascii "max iterations reached"
  | .wallClock => ascii "wall clock budget exhausted"

def answerFrom (question reason : Bytes) (result : ResearchResult) : Prog ResearchResult :=
  if result.successfulFindings ≠ [] then do
    let answer ← synthesizeAnswer env engine.client question result.successfulFindings
    emit (event "answer_found" [("answer", .str answer)])
    return { result with
      answered := true
      answer
      terminationReason := if reason = [] then ascii "task queue drained" else reason }
  else
    return { result with
      terminationReason :=
        if reason = [] then ascii "task queue drained without a successful finding" else reason }

def conclude (question : Bytes) (engineStart : Int) (progress : Progress (List Finding)) (ending : Ending) :
    Prog ResearchResult := do
  let stop ← now env
  let result ← answerFrom engine env question (endingReason ending)
    { iterationsRun := progress.iterations
      successfulFindings := progress.gathered
      wallClock := toMilliseconds (stop - engineStart) }
  emit (complete result)
  return result

def research (question : Bytes) : Prog ResearchResult := do
  let engineStart ← now env
  emit (event "question" [("question", .str question)])
  let keywords ← extractKeywords env engine.client engine.config.maxInitialKeywords
    (keywordPrompt engine.config.maxInitialKeywords question) question
  emit (event "keywords_extracted" [("keywords", .arr (keywords.map .str))])
  let fs ← (fun w : World => w.disk.fs) <$> get
  let seedTasks := seeds engine question fs keywords
  if seedTasks = [] then
    let stop ← now env
    let result : ResearchResult :=
      { terminationReason :=
        ascii "no initial research direction found from question keywords (question keywords not present in codebase knowledge)"
        wallClock := toMilliseconds (stop - engineStart) }
    emit (complete result)
    return result
  else
    let queue ← queueSeeds seedTasks
    let (progress, ending) ← (steps engine env question).explore env engine.config engineStart
      engine.config.maxIterations.toNat { queue, iterations := 0, gathered := [] }
    conclude engine env question engineStart progress ending

end CppCoder.ResearchEngine
