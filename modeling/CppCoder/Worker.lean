import CppCoder.JsonUtil
import CppCoder.Agent

/-! Investigating one area, or a repeatable task's areas one after another. -/

namespace CppCoder.Worker
open Support Utf8 JsonValue Program CppCoder.Types CodebaseScanner Session OllamaClient JsonUtil Reply Agent

def skippedNote (skipped : List Bytes) : Bytes :=
  if skipped = [] then []
  else ascii "Note: " ++ decimal skipped.length ++
    ascii " file(s) in this area were omitted due to the context budget and were NOT " ++
    ascii "investigated.\n\n"

def shape : Bytes :=
  ascii "Respond with ONLY a single JSON object, no prose, no markdown fences, matching " ++
  ascii "this shape exactly:\n" ++
  ascii "\x7b\n" ++
  ascii "  \"outcome\": \"success\" | \"no_information\" | \"partial\",\n" ++
  ascii "  \"summary\": \"compact findings relevant to the research goal, or empty " ++
  ascii "string if none\",\n" ++
  ascii "  \"directions\": [\n" ++
  ascii "    \x7b\n" ++
  ascii "      \"target_area\": \"relative path to investigate next\",\n" ++
  ascii "      \"research_goal\": \"what to look for there\",\n" ++
  ascii "      \"success_criteria\": \"how to know that goal is satisfied\"\n" ++
  ascii "    \x7d\n" ++
  ascii "  ]\n" ++
  ascii "\x7d\n\n" ++
  ascii "Use \"success\" only if the success criteria are fully met by what you can " ++
  ascii "see. Use \"no_information\" if this area is entirely unrelated to the goal. " ++
  ascii "Use \"partial\" otherwise, and populate \"directions\" with plausible leads " ++
  ascii "that stay on-topic for the research goal above -- do not suggest unrelated " ++
  ascii "areas. \"directions\" may be an empty array."

def buildPrompt (task : Task) (scan : ScanResult) : Bytes :=
  ascii "You are a research worker investigating a codebase area on behalf of " ++
  ascii "a larger research process. Investigate ONLY the code provided below.\n\n" ++
  ascii "Research goal: " ++ task.researchGoal ++ ascii "\n" ++
  ascii "Success criteria: " ++ task.successCriteria ++ ascii "\n\n" ++
  ascii "Code under investigation (area: " ++ task.targetArea ++ ascii "):\n" ++
  ascii "-----\n" ++
  scan.concatenatedContent ++ ascii "\n" ++
  ascii "-----\n\n" ++
  skippedNote scan.filesSkippedBudget ++ shape

theorem valid_shape : Valid shape := by
  unfold shape
  simp only [valid_append_ascii]
  exact valid_ascii _

theorem valid_skippedNote (skipped : List Bytes) : Valid (skippedNote skipped) := by
  unfold skippedNote
  split_ifs
  · exact valid_nil
  · simp only [valid_append_ascii]
    exact (valid_ascii _).append (valid_decimal _)

theorem valid_buildPrompt {task : Task} (goal : Valid task.researchGoal)
    (criteria : Valid task.successCriteria) (scan : ScanResult) :
    Valid (buildPrompt task scan) ↔ Valid task.targetArea ∧ Valid scan.concatenatedContent := by
  unfold buildPrompt
  exact valid_prompt goal criteria (valid_skippedNote _) valid_shape _ _ _ (by decide) _ _

def outcomeOf (text : Bytes) : WorkerOutcome :=
  if text = ascii "success" then .success
  else if text = ascii "partial" then .partialWithDirections
  else .noInformation

def addDirection (t : Task) (finding : Finding) : Finding :=
  { finding with suggestedDirections := finding.suggestedDirections ++ [t] }

/-- The `try` block. -/
def readFinding (parser : Parser) (jsonStr : Bytes) : EStateM JsonError (Parsing Finding) Unit :=
  match parser.parse jsonStr with
  | none => throw .parse
  | some parsed => do
      let outcomeStr ← orThrow (parsed.valueStr "outcome" (ascii "no_information"))
      modify fun p => { p with finding := { p.finding with outcome := outcomeOf outcomeStr } }
      let summary ← orThrow (parsed.valueStr "summary" [])
      modify fun p => { p with finding := { p.finding with summary } }
      let directions ← orThrow (parsed.valueJson "directions" (.arr []))
      directions.items.forM (readDirection "task-" addDirection)

def parseWorkerResponse (parser : Parser) (counter : Nat) (raw area : Bytes) : Finding × Nat :=
  let finding : Finding := { areaInvestigated := area }
  let jsonStr := extractJsonObject raw
  if jsonStr = [] then (finding, counter)
  else match readFinding parser jsonStr ⟨finding, counter⟩ with
    | .ok _ p => (p.finding, p.counter)
    | .error _ p => ({ p.finding with outcome := .noInformation }, p.counter)

def mergeOutcome (merged sub : WorkerOutcome) : WorkerOutcome :=
  if sub = .success ∧ merged ≠ .success then .success
  else if sub = .partialWithDirections ∧ merged = .noInformation then .partialWithDirections
  else merged

def summaryLine (subArea summary : Bytes) : Bytes :=
  if summary = [] then [] else ascii "[" ++ subArea ++ ascii "] " ++ summary ++ ascii "\n"

def mergeSub (merged : Finding) (subArea : Bytes) (sub : Finding) : Finding :=
  let told := sub.outcome = .success ∨ sub.outcome = .partialWithDirections
  { merged with
    promptTokensApprox := merged.promptTokensApprox + sub.promptTokensApprox
    summary := merged.summary ++ if told then summaryLine subArea sub.summary else []
    suggestedDirections := merged.suggestedDirections ++ if told then sub.suggestedDirections else []
    outcome := mergeOutcome merged.outcome sub.outcome }

def role : Role Finding where
  buildPrompt := buildPrompt
  parseResponse := parseWorkerResponse
  counter := .worker
  blank area := { areaInvestigated := area }
  setPromptTokens n finding := { finding with promptTokensApprox := n }
  setDuration d finding := { finding with duration := d }
  mergeSub := mergeSub
  toAct := .found

def executeSingleArea (env : Environment) (setup : Setup) (task : Task) (area : Bytes) : Prog Finding :=
  role.executeSingleArea env setup task area

def execute (env : Environment) (setup : Setup) (task : Task) : Prog Finding := role.execute env setup task

theorem role_prompts : role.Prompts := fun _ scan goal criteria => valid_buildPrompt goal criteria scan

/-- A finding about an area that may be emitted and quoted, with directions that are tasks for one area. -/
structure Readable (area : Bytes) (finding : Finding) : Prop where
  area : finding.areaInvestigated = area
  summary : Valid finding.summary
  directions : ∀ d ∈ finding.suggestedDirections, Direction d

theorem readFinding_runs (parser : Parser) (jsonStr area : Bytes) (p : Parsing Finding)
    (before : Readable area p.finding) :
    Runs (readFinding parser jsonStr) p (fun _ p' => Readable area p'.finding)
      fun _ p' => Readable area p'.finding := by
  unfold readFinding
  cases parsing : parser.parse jsonStr with
  | none => exact Runs.throw before
  | some parsed =>
    have clean := parser.dumpable jsonStr parsed parsing
    refine Runs.bind (Runs.orThrow (fun outcomeStr _ => ?_) fun _ _ => before)
    refine Runs.bind (Runs.modify (Runs.bind (Runs.orThrow (fun summary read => ?_)
      fun _ _ => ⟨before.area, before.summary, before.directions⟩)))
    have valid := valid_valueStr clean valid_nil read
    refine Runs.bind (Runs.modify (Runs.bind (Runs.orThrow (fun directions read => ?_)
      fun _ _ => ⟨before.area, valid, before.directions⟩)))
    have listed := dumpable_items (dumpable_valueJson clean (by simp) read)
    refine Runs.forM_both _ (fun dir member p now => ?_) ⟨before.area, valid, before.directions⟩
    refine readDirection_runs (listed dir member)
      (fun t finding read kept => ⟨kept.area, kept.summary, ?_⟩) p now
    exact List.forall_mem_append.2 ⟨kept.directions, by simpa using read⟩

theorem parseWorkerResponse_readable (parser : Parser) (counter : Nat) (raw area : Bytes) :
    Readable area (parseWorkerResponse parser counter raw area).1 := by
  have nothing : Readable area { areaInvestigated := area } := ⟨rfl, valid_nil, by simp⟩
  have run := readFinding_runs parser (extractJsonObject raw) area ⟨{ areaInvestigated := area },
    counter⟩ nothing
  unfold parseWorkerResponse
  dsimp only
  split_ifs
  · exact nothing
  · cases result : readFinding parser (extractJsonObject raw) ⟨{ areaInvestigated := area }, counter⟩ with
    | ok _ p => exact run.ok result
    | error _ p =>
      have kept := run.error result
      exact ⟨kept.area, kept.summary, kept.directions⟩

variable {env : Environment} {setup : Setup} {task : Task} {fs : Support.Disk.FileSystem}

theorem sub_readable {sub : SubRun Finding} (sound : sub.Sound role env setup task fs) :
    Readable sub.area sub.finding :=
  sound.induction ⟨rfl, valid_nil, fun _ none => absurd none List.not_mem_nil⟩
    (fun _ n raw => parseWorkerResponse_readable env.parser n raw sub.area)
    fun _ _ _ readable => ⟨readable.area, readable.summary, readable.directions⟩

theorem told_area {sub : SubRun Finding} (sound : sub.Sound role env setup task fs) (clean : Clean task)
    (told : sub.finding.outcome ≠ .noInformation) : Valid sub.area := by
  obtain ⟨reply, tokens, duration, same, rfl | ⟨something, -⟩⟩ := sound.report
  · rw [same] at told
    exact absurd rfl told
  · exact ((request_dumpable role_prompts setup clean _ _).1 (sound.asked something)).2.1

theorem mergeSub_readable {area : Bytes} {merged : Finding} {sub : SubRun Finding}
    (sound : sub.Sound role env setup task fs) (clean : Clean task) (readable : Readable area merged) :
    Readable area (mergeSub merged sub.area sub.finding) := by
  have found := sub_readable sound
  refine ⟨readable.area, ?_, ?_⟩
  · apply readable.summary.append
    split_ifs with told
    · unfold summaryLine
      split_ifs
      · exact valid_nil
      · have named := told_area sound clean (by rintro none; simp [none] at told)
        rw [valid_append_ascii]
        exact ((valid_append_right ((valid_ascii _)) _).2 ((valid_ascii_append _ _).2 named)).append
          found.summary
    · exact valid_nil
  · refine List.forall_mem_append.2 ⟨readable.directions, ?_⟩
    split_ifs
    · exact found.directions
    · exact fun _ none => absurd none List.not_mem_nil

theorem executed_readable {subs : List (SubRun Finding)} {finding : Finding} (clean : Clean task)
    (executed : role.Executed env setup task fs subs finding) : Readable task.targetArea finding := by
  have combines := executed.combines
  unfold Role.Combines at combines
  split_ifs at combines with single
  · obtain ⟨sub, rfl, rfl⟩ := List.map_eq_singleton_iff.1 combines
    have named : [sub.area] = [task.targetArea] := executed.areas.trans (if_pos single)
    have found := sub_readable (executed.each sub (List.mem_singleton_self sub))
    rwa [List.singleton_inj.1 named] at found
  · obtain ⟨duration, rfl⟩ := combines
    have blank : Readable task.targetArea (role.blank task.targetArea) :=
      ⟨rfl, valid_nil, fun _ none => absurd none List.not_mem_nil⟩
    have merged := List.foldlRecOn subs (fun merged sub => role.mergeSub merged sub.area sub.finding)
      blank fun merged kept sub member => mergeSub_readable (executed.each sub member) clean kept
    exact ⟨merged.area, merged.summary, merged.directions⟩

end CppCoder.Worker
