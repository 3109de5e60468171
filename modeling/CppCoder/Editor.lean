import CppCoder.JsonUtil
import CppCoder.Agent

/-! Proposing edits for one area, or for a repeatable task's areas one after another. -/

namespace CppCoder.Editor
open Support Utf8 JsonValue Program CppCoder.Types CodebaseScanner Session OllamaClient JsonUtil Reply Agent

def newline : UInt8 := 10

/-- Takes the line away that the scanner puts before a file, if the content starts with it. -/
def stripScannerHeaderMarker (content : Bytes) : Bytes :=
  let fromMarker := content.dropWhile (· = newline)
  if fromMarker.take 8 = ascii "// ==== " then
    match fromMarker.dropWhile (· ≠ newline) with
    | [] => content
    | _ :: afterLine => afterLine
  else content

def skippedNote (skipped : List Bytes) : Bytes :=
  if skipped = [] then []
  else ascii "Note: " ++ decimal skipped.length ++
    ascii " file(s) in this area were omitted due to the context budget and were NOT shown " ++
    ascii "to you -- do not propose edits to files you have not seen.\n\n"

def shape : Bytes :=
  ascii "Each file above is preceded by a \"// ==== <path> ====\" line. That marker is " ++
  ascii "inserted by the tool showing you this code -- it is NOT part of any file's " ++
  ascii "actual content. Never include it in \"new_content\".\n\n" ++
  ascii "Respond with ONLY a single JSON object, no prose, no markdown fences, matching " ++
  ascii "this shape exactly:\n" ++
  ascii "\x7b\n" ++
  ascii "  \"outcome\": \"success\" | \"no_change\" | \"partial\",\n" ++
  ascii "  \"summary\": \"compact description of what changed and why, or empty string " ++
  ascii "if nothing changed\",\n" ++
  ascii "  \"edits\": [\n" ++
  ascii "    \x7b\n" ++
  ascii "      \"path\": \"relative path of the file to change\",\n" ++
  ascii "      \"new_content\": \"the FULL new content of the file after the change, not " ++
  ascii "just the changed lines\",\n" ++
  ascii "      \"description\": \"short summary of the change to this file\"\n" ++
  ascii "    \x7d\n" ++
  ascii "  ],\n" ++
  ascii "  \"directions\": [\n" ++
  ascii "    \x7b\n" ++
  ascii "      \"target_area\": \"relative path that also needs a change\",\n" ++
  ascii "      \"research_goal\": \"what change to make there\",\n" ++
  ascii "      \"success_criteria\": \"how to know that change is complete\"\n" ++
  ascii "    \x7d\n" ++
  ascii "  ]\n" ++
  ascii "\x7d\n\n" ++
  ascii "Use \"success\" only if the success criteria are fully met by the edits you " ++
  ascii "propose. Use \"no_change\" if nothing in this area needs to change. Use " ++
  ascii "\"partial\" if you made edits here but other areas also need changes to fully " ++
  ascii "satisfy the task, and populate \"directions\" with those areas -- do not " ++
  ascii "suggest unrelated areas. Every entry in \"edits\" must include the complete " ++
  ascii "file content, not a diff or excerpt. \"edits\" and \"directions\" may be " ++
  ascii "empty arrays."

def buildPrompt (task : Task) (scan : ScanResult) : Bytes :=
  ascii "You are a coding agent making a change to a codebase on behalf of a larger " ++
  ascii "edit process. Change ONLY the code provided below.\n\n" ++
  ascii "Task: " ++ task.researchGoal ++ ascii "\n" ++
  ascii "Success criteria: " ++ task.successCriteria ++ ascii "\n\n" ++
  ascii "Code under consideration (area: " ++ task.targetArea ++ ascii "):\n" ++
  ascii "-----\n" ++
  scan.concatenatedContent ++ ascii "\n" ++
  ascii "-----\n\n" ++
  skippedNote scan.filesSkippedBudget ++ shape

theorem valid_shape : Valid shape := by
  unfold shape
  simp only [valid_append_ascii]
  exact valid_ascii _

theorem valid_skippedNote (skipped : List Bytes) : Valid (skippedNote skipped) := by
  unfold skippedNote
  split_ifs
  · exact valid_nil
  · simp only [valid_append_ascii]
    exact (valid_ascii _).append (valid_decimal _)

theorem valid_buildPrompt {task : Task} (goal : Valid task.researchGoal)
    (criteria : Valid task.successCriteria) (scan : ScanResult) :
    Valid (buildPrompt task scan) ↔ Valid task.targetArea ∧ Valid scan.concatenatedContent := by
  unfold buildPrompt
  exact valid_prompt goal criteria (valid_skippedNote _) valid_shape _ _ _ (by decide) _ _

def outcomeOf (text : Bytes) : EditOutcome :=
  if text = ascii "success" then .success
  else if text = ascii "partial" then .partialWithDirections
  else .noChangeNeeded

def addDirection (t : Task) (finding : EditFinding) : EditFinding :=
  { finding with suggestedDirections := finding.suggestedDirections ++ [t] }

/-- One element of `edits`; it is dropped if it names no path. -/
def readEdit (e : Json) : EStateM JsonError (Parsing EditFinding) Unit := do
  let path ← orThrow (e.valueStr "path" [])
  let newContent ← orThrow (e.valueStr "new_content" [])
  let description ← orThrow (e.valueStr "description" [])
  let edit : ProposedEdit := { path, newContent := stripScannerHeaderMarker newContent, description }
  if edit.path ≠ [] then
    modify fun p => { p with finding := { p.finding with edits := p.finding.edits ++ [edit] } }

/-- The `try` block. -/
def readFinding (parser : Parser) (jsonStr : Bytes) : EStateM JsonError (Parsing EditFinding) Unit :=
  match parser.parse jsonStr with
  | none => throw .parse
  | some parsed => do
      let outcomeStr ← orThrow (parsed.valueStr "outcome" (ascii "no_change"))
      modify fun p => { p with finding := { p.finding with outcome := outcomeOf outcomeStr } }
      let summary ← orThrow (parsed.valueStr "summary" [])
      modify fun p => { p with finding := { p.finding with summary } }
      let edits ← orThrow (parsed.valueJson "edits" (.arr []))
      edits.items.forM readEdit
      let directions ← orThrow (parsed.valueJson "directions" (.arr []))
      directions.items.forM (readDirection "edit-task-" addDirection)

def parseEditResponse (parser : Parser) (counter : Nat) (raw area : Bytes) : EditFinding × Nat :=
  let finding : EditFinding := { areaInvestigated := area }
  let jsonStr := extractJsonObject raw
  if jsonStr = [] then (finding, counter)
  else match readFinding parser jsonStr ⟨finding, counter⟩ with
    | .ok _ p => (p.finding, p.counter)
    | .error _ p => ({ p.finding with outcome := .noChangeNeeded }, p.counter)

def mergeOutcome (merged sub : EditOutcome) : EditOutcome :=
  if sub = .success ∧ merged ≠ .success then .success
  else if sub = .partialWithDirections ∧ merged = .noChangeNeeded then .partialWithDirections
  else merged

def summaryLine (subArea summary : Bytes) : Bytes :=
  if summary = [] then [] else ascii "[" ++ subArea ++ ascii "] " ++ summary ++ ascii "\n"

def mergeSub (merged : EditFinding) (subArea : Bytes) (sub : EditFinding) : EditFinding :=
  let told := sub.outcome = .success ∨ sub.outcome = .partialWithDirections
  { merged with
    promptTokensApprox := merged.promptTokensApprox + sub.promptTokensApprox
    summary := merged.summary ++ if told then summaryLine subArea sub.summary else []
    edits := merged.edits ++ if told then sub.edits else []
    suggestedDirections := merged.suggestedDirections ++ if told then sub.suggestedDirections else []
    outcome := mergeOutcome merged.outcome sub.outcome }

def role : Role EditFinding where
  buildPrompt := buildPrompt
  parseResponse := parseEditResponse
  counter := .editor
  blank area := { areaInvestigated := area }
  setPromptTokens n finding := { finding with promptTokensApprox := n }
  setDuration d finding := { finding with duration := d }
  mergeSub := mergeSub
  toAct := .edited

def executeSingleArea (env : Environment) (setup : Setup) (task : Task) (area : Bytes) : Prog EditFinding :=
  role.executeSingleArea env setup task area

def execute (env : Environment) (setup : Setup) (task : Task) : Prog EditFinding :=
  role.execute env setup task

/-- What a finding says and proposes may be emitted, and its directions are tasks for one area. -/
structure Readable (finding : EditFinding) : Prop where
  summary : Valid finding.summary
  edits : ∀ e ∈ finding.edits, Valid e.path ∧ Valid e.description
  directions : ∀ d ∈ finding.suggestedDirections, Direction d

theorem readEdit_runs {e : Json} (clean : e.dumpable = true) (p : Parsing EditFinding)
    (before : Readable p.finding) :
    Runs (readEdit e) p (fun _ p' => Readable p'.finding) fun _ p' => Readable p'.finding := by
  unfold readEdit
  refine Runs.bind (Runs.orThrow (fun path read => ?_) fun _ _ => before)
  have named := valid_valueStr clean valid_nil read
  refine Runs.bind (Runs.orThrow (fun newContent _ => ?_) fun _ _ => before)
  refine Runs.bind (Runs.orThrow (fun description read => ?_) fun _ _ => before)
  have described := valid_valueStr clean valid_nil read
  dsimp only
  split_ifs
  · refine Runs.modify ⟨before.summary, ?_, before.directions⟩
    exact List.forall_mem_append.2 ⟨before.edits, by simpa using ⟨named, described⟩⟩
  · exact Runs.pure before

theorem readEdits_runs {edits : List Json} (clean : ∀ e ∈ edits, e.dumpable = true)
    (p : Parsing EditFinding) (before : Readable p.finding) :
    Runs (edits.forM readEdit) p (fun _ p' => Readable p'.finding) fun _ p' => Readable p'.finding :=
  Runs.forM_both edits
    (fun e member p kept => readEdit_runs (clean e member) p kept) before

theorem readFinding_runs (parser : Parser) (jsonStr : Bytes) (p : Parsing EditFinding)
    (before : Readable p.finding) :
    Runs (readFinding parser jsonStr) p (fun _ p' => Readable p'.finding) fun _ p' =>
        Readable p'.finding := by
  unfold readFinding
  cases parsing : parser.parse jsonStr with
  | none => exact Runs.throw before
  | some parsed =>
    have clean := parser.dumpable jsonStr parsed parsing
    refine Runs.bind (Runs.orThrow (fun outcomeStr _ => ?_) fun _ _ => before)
    refine Runs.bind (Runs.modify (Runs.bind (Runs.orThrow (fun summary read => ?_)
      fun _ _ => ⟨before.summary, before.edits, before.directions⟩)))
    have valid := valid_valueStr clean valid_nil read
    have now : Readable { p.finding with outcome := outcomeOf outcomeStr, summary } :=
      ⟨valid, before.edits, before.directions⟩
    refine Runs.bind (Runs.modify (Runs.bind (Runs.orThrow (fun edits read => ?_) fun _ _ => now)))
    have proposed := dumpable_items (dumpable_valueJson clean (by simp) read)
    refine Runs.bind ((readEdits_runs proposed _ now).weaken fun _ p later => ?_)
    refine Runs.bind (Runs.orThrow (fun directions read => ?_) fun _ _ => later)
    have listed := dumpable_items (dumpable_valueJson clean (by simp) read)
    refine Runs.forM_both _ (fun dir member p now => ?_) later
    refine readDirection_runs (listed dir member)
      (fun t finding read kept => ⟨kept.summary, kept.edits, ?_⟩) p now
    exact List.forall_mem_append.2 ⟨kept.directions, by simpa using read⟩

theorem parseEditResponse_readable (parser : Parser) (counter : Nat) (raw area : Bytes) :
    Readable (parseEditResponse parser counter raw area).1 := by
  have nothing : Readable { areaInvestigated := area } := ⟨valid_nil, by simp, by simp⟩
  have run := readFinding_runs parser (extractJsonObject raw) ⟨{ areaInvestigated := area },
    counter⟩ nothing
  unfold parseEditResponse
  dsimp only
  split_ifs
  · exact nothing
  · cases result : readFinding parser (extractJsonObject raw) ⟨{ areaInvestigated := area }, counter⟩ with
    | ok _ p => exact run.ok result
    | error _ p =>
      have kept := run.error result
      exact ⟨kept.summary, kept.edits, kept.directions⟩

theorem role_prompts : role.Prompts := fun _ scan goal criteria => valid_buildPrompt goal criteria scan

variable {env : Environment} {setup : Setup} {task : Task} {fs : Support.Disk.FileSystem}

theorem sub_readable {sub : SubRun EditFinding} (sound : sub.Sound role env setup task fs) :
    Readable sub.finding :=
  sound.induction ⟨valid_nil, fun _ none => absurd none List.not_mem_nil, fun _ none => absurd none
    List.not_mem_nil⟩
    (fun _ n raw => parseEditResponse_readable env.parser n raw sub.area)
    fun _ _ _ readable => ⟨readable.summary, readable.edits, readable.directions⟩

theorem told_area {sub : SubRun EditFinding} (sound : sub.Sound role env setup task fs) (clean : Clean task)
    (told : sub.finding.outcome ≠ .noChangeNeeded) : Valid sub.area := by
  obtain ⟨reply, tokens, duration, same, rfl | ⟨something, -⟩⟩ := sound.report
  · rw [same] at told
    exact absurd rfl told
  · exact ((request_dumpable role_prompts setup clean _ _).1 (sound.asked something)).2.1

theorem mergeSub_readable {merged : EditFinding} {sub : SubRun EditFinding}
    (sound : sub.Sound role env setup task fs) (clean : Clean task) (readable : Readable merged) :
    Readable (mergeSub merged sub.area sub.finding) := by
  have found := sub_readable sound
  refine ⟨readable.summary.append ?_, List.forall_mem_append.2 ⟨readable.edits, ?_⟩,
    List.forall_mem_append.2 ⟨readable.directions, ?_⟩⟩
  · split_ifs with told
    · unfold summaryLine
      split_ifs
      · exact valid_nil
      · have named := told_area sound clean (by rintro none; simp [none] at told)
        rw [valid_append_ascii]
        exact ((valid_append_right (valid_ascii _) _).2 ((valid_ascii_append _ _).2 named)).append
          found.summary
    · exact valid_nil
  · split_ifs
    · exact found.edits
    · exact fun _ none => absurd none List.not_mem_nil
  · split_ifs
    · exact found.directions
    · exact fun _ none => absurd none List.not_mem_nil

theorem executed_readable {subs : List (SubRun EditFinding)} {finding : EditFinding} (clean : Clean task)
    (executed : role.Executed env setup task fs subs finding) : Readable finding :=
  executed.induction (fun _ sound => sub_readable sound)
    ⟨valid_nil, fun _ none => absurd none List.not_mem_nil, fun _ none => absurd none List.not_mem_nil⟩
    (fun _ _ sound kept => mergeSub_readable sound clean kept)
    fun _ _ readable => ⟨readable.summary, readable.edits, readable.directions⟩

end CppCoder.Editor
