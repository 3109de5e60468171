import CppCoder.JsonUtil
import CppCoder.OllamaClient
import CppCoder.Reply

/-! Pruning a finding: the model names the directions to keep by their indices. -/

namespace CppCoder.Judge
open Support Utf8 JsonValue Program CppCoder.Types Session OllamaClient JsonUtil Reply

def candidateLines : Nat → List Task → Bytes
  | _, [] => []
  | i, d :: rest =>
      decimal i ++ ascii ". target_area=\"" ++ d.targetArea ++ ascii "\" goal=\"" ++ d.researchGoal ++
        ascii "\"\n" ++ candidateLines (i + 1) rest

def buildPrompt (topic : Bytes) (finding : Finding) : Bytes :=
  ascii "You are the judge in a research pipeline. A worker investigated area '" ++
  finding.areaInvestigated ++
  ascii "' and produced the findings below. Your only job is to prune, not to add new " ++
  ascii "information.\n\n" ++
  ascii "Main research topic: " ++ topic ++ ascii "\n\n" ++
  ascii "Worker summary:\n" ++
  (if finding.summary = [] then ascii "(empty)" else finding.summary) ++ ascii "\n\n" ++
  ascii "Candidate follow-up directions:\n" ++
  candidateLines 0 finding.suggestedDirections ++
  (if finding.suggestedDirections = [] then ascii "(none)\n" else []) ++
  ascii "\nRespond with ONLY a single JSON object, no prose, no markdown fences:\n" ++
  ascii "\x7b\n" ++
  ascii "  \"summary_relevant\": true | false,\n" ++
  ascii "  \"filtered_summary\": \"the summary text, trimmed to only what is actually " ++
  ascii "relevant to the main research topic (may equal the original, or be empty)\",\n" ++
  ascii "  \"keep_direction_indices\": [list of integer indices from the candidate list " ++
  ascii "above that stay clearly aligned with the main research topic]\n" ++
  ascii "\x7d"

theorem valid_candidateLines {directions : List Task} (clean : ∀ d ∈ directions, Clean d) (i : Nat) :
    Valid (candidateLines i directions) := by
  induction directions generalizing i with
  | nil => exact valid_nil
  | cons d rest ih =>
    have first := clean d List.mem_cons_self
    unfold candidateLines
    rw [valid_append_right (ih (fun other member => clean other (List.mem_cons_of_mem _ member)) _),
      valid_append_ascii, valid_append_right first.researchGoal, valid_append_ascii,
      valid_append_right first.targetArea, valid_append_ascii]
    exact valid_decimal i

theorem valid_buildPrompt {topic : Bytes} {finding : Finding} (about : Valid topic)
    (area : Valid finding.areaInvestigated) (summary : Valid finding.summary)
    (clean : ∀ d ∈ finding.suggestedDirections, Clean d) : Valid (buildPrompt topic finding) := by
  have shown : Valid (if finding.summary = [] then ascii "(empty)" else finding.summary) := by
    split_ifs
    · exact valid_ascii _
    · exact summary
  have none : Valid (if finding.suggestedDirections = [] then ascii "(none)\n" else []) := by
    split_ifs
    · exact valid_ascii _
    · exact valid_nil
  unfold buildPrompt
  simp only [valid_append_ascii, valid_append_right none, valid_append_right (valid_candidateLines clean 0),
    valid_append_right shown, valid_append_right about, valid_append_right area, valid_ascii]

/-- The direction that an element of the index list keeps, if any. -/
def keptBy (directions : List Task) : Json → Option Task
  | .unsigned i => directions[i.toNat]?
  | _ => none

def filteredSummary (parsed : Json) (relevant : Bool) (summary : Bytes) : Except JsonError Bytes :=
  if relevant then parsed.valueStr "filtered_summary" summary else .ok []

/-- The `try` block. -/
def prune (parser : Parser) (jsonStr : Bytes) : EStateM JsonError Finding Unit :=
  match parser.parse jsonStr with
  | none => throw .parse
  | some parsed => do
      let relevant ← orThrow (parsed.valueBool "summary_relevant" true)
      let finding ← get
      let summary ← orThrow (filteredSummary parsed relevant finding.summary)
      modify fun finding => { finding with summary }
      let indices ← orThrow (parsed.valueJson "keep_direction_indices" (.arr []))
      modify fun finding => { finding with
        suggestedDirections := indices.items.filterMap (keptBy finding.suggestedDirections) }
      modify fun finding =>
        if finding.outcome = .partialWithDirections ∧ finding.summary = [] ∧
            finding.suggestedDirections = [] then
          { finding with outcome := .noInformation }
        else finding

def applyJudgeResponse (parser : Parser) (raw : Bytes) (finding : Finding) : Finding :=
  let jsonStr := extractJsonObject raw
  if jsonStr = [] then finding else finalState (prune parser jsonStr finding)

def review (env : Environment) (client : OllamaConfig) (mainResearchTopic : Bytes) (finding : Finding) :
    Prog Finding := do
  if finding.outcome = .noInformation then
    record (.reviewed finding none finding)
    return finding
  else
    let response ← generate env client (buildPrompt mainResearchTopic finding) []
    let pruned := match response with
      | none => finding
      | some raw => applyJudgeResponse env.parser raw finding
    record (.reviewed finding response pruned)
    return pruned

/-- No direction is added, and the outcome stays as it is unless a partial finding is left with nothing. -/
structure Judgement (finding after : Finding) : Prop where
  outcome : after.outcome = finding.outcome ∨
    finding.outcome = .partialWithDirections ∧ after.outcome = .noInformation ∧
      after.suggestedDirections = []
  kept : ∀ d ∈ after.suggestedDirections, d ∈ finding.suggestedDirections

theorem Judgement.refl (finding : Finding) : Judgement finding finding := ⟨.inl rfl, fun _ kept => kept⟩

theorem mem_of_keptBy {directions : List Task} {index : Json} {d : Task}
    (kept : keptBy directions index = some d) : d ∈ directions := by
  cases index with
  | unsigned i => exact List.mem_of_getElem? kept
  | _ => cases kept

theorem prune_judgement (parser : Parser) (jsonStr : Bytes) (finding : Finding) :
    Runs (prune parser jsonStr) finding (fun _ f => Judgement finding f) fun _ f => Judgement
        finding f := by
  have same := Judgement.refl finding
  unfold prune
  cases parser.parse jsonStr with
  | none => exact Runs.throw same
  | some parsed =>
    refine Runs.bind (Runs.orThrow (fun _ _ => ?_) fun _ _ => same)
    refine Runs.bind (Runs.get (Runs.bind (Runs.orThrow (fun _ _ => ?_) fun _ _ => same)))
    refine Runs.bind (Runs.modify
      (Runs.bind (Runs.orThrow (fun indices _ => ?_) fun _ _ => ⟨.inl rfl, same.kept⟩)))
    have kept : ∀ d ∈ indices.items.filterMap (keptBy finding.suggestedDirections),
        d ∈ finding.suggestedDirections := by
      intro d member
      obtain ⟨index, -, found⟩ := List.mem_filterMap.1 member
      exact mem_of_keptBy found
    refine Runs.bind (Runs.modify (Runs.modify ?_))
    split_ifs with left
    · exact ⟨.inr ⟨left.1, rfl, left.2.2⟩, kept⟩
    · exact ⟨.inl rfl, kept⟩

theorem applyJudgeResponse_judgement (parser : Parser) (raw : Bytes) (finding : Finding) :
    Judgement finding (applyJudgeResponse parser raw finding) := by
  unfold applyJudgeResponse
  dsimp only
  split_ifs
  · exact .refl finding
  · exact (prune_judgement parser _ finding).final

def judged (parser : Parser) (raw : Finding) : Option Bytes → Finding
  | none => raw
  | some reply => applyJudgeResponse parser reply raw

theorem judged_judgement (parser : Parser) (raw : Finding) (reply : Option Bytes) :
    Judgement raw (judged parser raw reply) := by
  cases reply with
  | none => exact .refl raw
  | some reply => exact applyJudgeResponse_judgement parser reply raw

theorem prune_summary (parser : Parser) (jsonStr : Bytes) {finding : Finding}
    (valid : Valid finding.summary) :
    Runs (prune parser jsonStr) finding
      (fun _ f => Valid f.summary ∧ f.areaInvestigated = finding.areaInvestigated)
      fun _ f => Valid f.summary ∧ f.areaInvestigated = finding.areaInvestigated := by
  unfold prune
  cases parsing : parser.parse jsonStr with
  | none => exact Runs.throw ⟨valid, rfl⟩
  | some parsed =>
    have clean := parser.dumpable jsonStr parsed parsing
    refine Runs.bind (Runs.orThrow (fun relevant _ => ?_) fun _ _ => ⟨valid, rfl⟩)
    refine Runs.bind (Runs.get (Runs.bind (Runs.orThrow (fun summary read => ?_) fun _ _ => ⟨valid, rfl⟩)))
    have said : Valid summary := by
      unfold filteredSummary at read
      split_ifs at read
      · exact valid_valueStr clean valid read
      · cases read
        exact valid_nil
    refine Runs.bind (Runs.modify (Runs.bind (Runs.orThrow (fun _ _ => ?_) fun _ _ => ⟨said, rfl⟩)))
    refine Runs.bind (Runs.modify (Runs.modify ?_))
    split_ifs <;> exact ⟨said, rfl⟩

theorem judged_summary (parser : Parser) {raw : Finding} (valid : Valid raw.summary)
    (reply : Option Bytes) :
    Valid (judged parser raw reply).summary ∧ (judged parser raw reply).areaInvestigated =
        raw.areaInvestigated := by
  cases reply with
  | none => exact ⟨valid, rfl⟩
  | some reply =>
    change Valid (applyJudgeResponse parser reply raw).summary ∧ _
    unfold judged applyJudgeResponse
    dsimp only
    split_ifs
    · exact ⟨valid, rfl⟩
    · exact (prune_summary parser _ valid).final

theorem review_runs (env : Environment) (client : OllamaConfig) (topic : Bytes) (raw : Finding)
    (w : World) :
    Runs (review env client topic raw) w
      (fun finding w' => ∃ reply, finding = judged env.parser raw reply ∧
        Adds w [.reviewed raw reply finding] w')
      (fun e w' => e = .type ∧ raw.outcome ≠ .noInformation ∧
        ¬ (requestBody client (buildPrompt topic raw) []).dumpable = true ∧ Adds w [] w') := by
  unfold review
  split_ifs with blank
  · exact Runs.bind (runs_record (Runs.pure ⟨none, rfl, rfl, rfl, rfl⟩))
  · refine Runs.bind (runs_generate (fun _ => ?_) fun dirty => ⟨rfl, blank, dirty, .refl w⟩)
    refine Runs.bind (runs_record (Runs.pure ⟨responseText env.parser (env.http w.calls), ?_⟩))
    cases responseText env.parser (env.http w.calls) <;> exact ⟨rfl, rfl, rfl, rfl⟩

end CppCoder.Judge
