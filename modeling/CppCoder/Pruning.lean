import CppCoder.ResearchEngine

/-! What the judge keeps of a finding's directions, and what the event about it says of the rest. -/

namespace CppCoder.Pruning
open Support Utf8 JsonValue Program CppCoder.Types Session OllamaClient JsonUtil EngineLoop Judge
  ResearchEngine

/-- The directions at these positions are kept, none of them twice. -/
structure Prunes (before after : List Task) (positions : List Nat) : Prop where
  distinct : positions.Nodup
  inside : ∀ i ∈ positions, i < before.length
  kept : after = positions.filterMap fun i => before[i]?

/-- How many of `n` positions are not among the given ones. -/
def unkept (n : Nat) (positions : List Nat) : Nat := (List.range n).countP (· ∉ positions)

/-- The value that is looked up as the list of indices, unless a lookup before it throws. -/
def readIndices (parsed : Json) : Except JsonError Json := do
  let relevant ← parsed.valueBool "summary_relevant" true
  let _ ← filteredSummary parsed relevant []
  parsed.valueJson "keep_direction_indices" (.arr [])

def indexList (parser : Parser) (raw : Bytes) : Option Json :=
  let jsonStr := extractJsonObject raw
  if jsonStr = [] then none else (parser.parse jsonStr).bind fun parsed => (readIndices parsed).toOption

/-- The position, among `n`, that an element of the list names, if any. -/
def position (n : Nat) : Json → Option Nat
  | .unsigned i => if i.toNat < n then some i.toNat else none
  | _ => none

/-- The reply lists none of `n` positions twice. -/
def ListsOnce (parser : Parser) (raw : Bytes) (n : Nat) : Prop :=
  ∀ indices, indexList parser raw = some indices → (indices.items.filterMap (position n)).Nodup

/-! ### The directions that stay -/

theorem keptBy_eq (directions : List Task) (index : Json) :
    keptBy directions index = (position directions.length index).bind fun i => directions[i]? := by
  cases index with
  | unsigned i =>
    simp only [keptBy, position]
    split_ifs with small
    · rfl
    · exact List.getElem?_eq_none (Nat.not_lt.1 small)
  | _ => rfl

theorem filteredSummary_error {parsed : Json} {relevant : Bool} {one other : Bytes} {e : JsonError}
    (thrown : filteredSummary parsed relevant one = .error e) :
    filteredSummary parsed relevant other = .error e := by
  cases relevant with
  | false => cases thrown
  | true =>
    change parsed.valueStr "filtered_summary" one = _ at thrown
    change parsed.valueStr "filtered_summary" other = _
    unfold Json.valueStr at *
    cases found : parsed.member "filtered_summary" with
    | error e' =>
      rw [found] at thrown
      exact thrown
    | ok member =>
      rw [found] at thrown
      cases member with
      | none => cases thrown
      | some member => cases member <;> exact thrown

theorem prune_runs (parser : Parser) (jsonStr : Bytes) (finding : Finding) :
    Runs (prune parser jsonStr) finding
      (fun _ f => ∃ parsed indices, parser.parse jsonStr = some parsed ∧ readIndices parsed = .ok indices ∧
        f.suggestedDirections = indices.items.filterMap (keptBy finding.suggestedDirections))
      (fun _ f => (∀ parsed indices, parser.parse jsonStr = some parsed → readIndices parsed ≠
        .ok indices) ∧
        f.suggestedDirections = finding.suggestedDirections) := by
  unfold prune
  cases parser.parse jsonStr with
  | none =>
    refine Runs.throw ⟨fun parsed indices same => ?_, rfl⟩
    cases same
  | some parsed =>
    have fails : ∀ e, readIndices parsed = .error e →
        ∀ other indices, some parsed = some other → readIndices other ≠ .ok indices := by
      intro e failed other indices same read
      cases same
      rw [failed] at read
      cases read
    refine Runs.bind (Runs.orThrow (fun relevant told => ?_) fun e told => ⟨fails e ?_, rfl⟩)
    · refine Runs.bind (Runs.get
        (Runs.bind (Runs.orThrow (fun summary read => ?_) fun e read => ⟨fails e ?_, rfl⟩)))
      · have reaches : readIndices parsed = parsed.valueJson "keep_direction_indices" (.arr []) := by
          unfold readIndices
          rw [told]
          change filteredSummary parsed relevant [] >>= _ = _
          cases other : filteredSummary parsed relevant [] with
          | ok _ => rfl
          | error e =>
            rw [filteredSummary_error other] at read
            cases read
        refine Runs.bind (Runs.modify
          (Runs.bind (Runs.orThrow (fun indices listed => ?_) fun e listed => ?_)))
        · refine Runs.bind (Runs.modify (Runs.modify ⟨parsed, indices, rfl, reaches.trans listed, ?_⟩))
          split_ifs <;> rfl
        · exact ⟨fails e (reaches.trans listed), rfl⟩
      · unfold readIndices
        rw [told]
        change filteredSummary parsed relevant [] >>= _ = _
        rw [filteredSummary_error read]
        rfl
    · unfold readIndices
      rw [told]
      rfl

theorem applyJudgeResponse_directions (parser : Parser) (raw : Bytes) (finding : Finding) :
    (applyJudgeResponse parser raw finding).suggestedDirections =
      match indexList parser raw with
      | none => finding.suggestedDirections
      | some indices => indices.items.filterMap (keptBy finding.suggestedDirections) := by
  unfold applyJudgeResponse indexList
  dsimp only
  split_ifs
  · rfl
  have run := prune_runs parser (extractJsonObject raw) finding
  cases result : prune parser (extractJsonObject raw) finding with
  | ok _ f =>
    obtain ⟨parsed, indices, same, read, kept⟩ := run.ok result
    rw [same, Option.bind_some, read]
    exact kept
  | error e f =>
    obtain ⟨never, kept⟩ := run.error result
    cases same : parser.parse (extractJsonObject raw) with
    | none => exact kept
    | some parsed =>
      rw [Option.bind_some]
      cases read : readIndices parsed with
      | ok indices => exact absurd read (never parsed indices same)
      | error e => exact kept

theorem position_lt {n : Nat} {index : Json} {i : Nat} (found : position n index = some i) : i < n := by
  cases index with
  | unsigned k =>
    simp only [position] at found
    split_ifs at found with small
    cases found
    exact small
  | _ => cases found

theorem filterMap_keptBy (directions : List Task) (indices : List Json) :
    indices.filterMap (keptBy directions) =
      (indices.filterMap (position directions.length)).filterMap fun i => directions[i]? := by
  rw [List.filterMap_filterMap]
  exact List.filterMap_congr fun index _ => keptBy_eq directions index

theorem filterMap_range (directions : List Task) :
    (List.range directions.length).filterMap (fun i => directions[i]?) = directions := by
  induction directions with
  | nil => rfl
  | cons first rest ih =>
    have head : (first :: rest)[0]? = some first := rfl
    rw [List.length_cons, List.range_succ_eq_map, List.filterMap_cons_some head, List.filterMap_map]
    exact congrArg (first :: ·) ih

theorem prunes_of_listsOnce {parser : Parser} {raw : Bytes} {finding : Finding}
    (once : ListsOnce parser raw finding.suggestedDirections.length) :
    ∃ positions, Prunes finding.suggestedDirections
      (applyJudgeResponse parser raw finding).suggestedDirections positions := by
  rw [applyJudgeResponse_directions]
  cases read : indexList parser raw with
  | none =>
    exact ⟨_, List.nodup_range, fun i => List.mem_range.1, (filterMap_range _).symm⟩
  | some indices =>
    refine ⟨_, once indices read, fun i member => ?_, filterMap_keptBy _ _⟩
    obtain ⟨index, -, found⟩ := List.mem_filterMap.1 member
    exact position_lt found

def numbered (n : Nat) : List Task := (List.range n).map fun i => { depth := i }

theorem numbered_get {n i : Nat} (small : i < n) : (numbered n)[i]? = some { depth := i } := by
  unfold numbered
  rw [List.getElem?_map, List.getElem?_range small]
  rfl

theorem numbered_depths {n : Nat} {positions : List Nat} (inside : ∀ i ∈ positions, i < n) :
    (positions.filterMap fun i => (numbered n)[i]?).map Task.depth = positions := by
  induction positions with
  | nil => rfl
  | cons i rest ih =>
    rw [List.filterMap_cons_some (numbered_get (inside i List.mem_cons_self)), List.map_cons,
      ih fun j member => inside j (List.mem_cons_of_mem _ member)]

/-- A reply prunes every finding with `n` directions exactly when it lists no position twice. -/
theorem prunes_iff (parser : Parser) (raw : Bytes) (n : Nat) :
    (∀ finding : Finding, finding.suggestedDirections.length = n → ∃ positions,
      Prunes finding.suggestedDirections (applyJudgeResponse parser raw finding).suggestedDirections
        positions) ↔
      ListsOnce parser raw n := by
  constructor
  · intro prunes indices read
    obtain ⟨positions, distinct, inside, kept⟩ :=
      prunes { suggestedDirections := numbered n } (by simp [numbered])
    rw [applyJudgeResponse_directions, read] at kept
    dsimp only at kept inside
    rw [filterMap_keptBy] at kept
    have length : (numbered n).length = n := by simp [numbered]
    rw [length] at kept inside
    have same := congrArg (List.map Task.depth) kept
    rw [numbered_depths inside, numbered_depths] at same
    · rwa [same]
    · intro i member
      obtain ⟨index, -, found⟩ := List.mem_filterMap.1 member
      exact position_lt found
  · rintro once finding rfl
    exact prunes_of_listsOnce once

/-! ### The event about it -/

theorem length_kept {directions : List Task} {positions : List Nat}
    (inside : ∀ i ∈ positions, i < directions.length) :
    (positions.filterMap fun i => directions[i]?).length = positions.length := by
  induction positions with
  | nil => rfl
  | cons i rest ih =>
    have found := List.getElem?_eq_getElem (inside i List.mem_cons_self)
    rw [List.filterMap_cons_some found, List.length_cons, List.length_cons,
      ih fun j member => inside j (List.mem_cons_of_mem _ member)]

theorem count_positions {n : Nat} {positions : List Nat} (distinct : positions.Nodup)
    (inside : ∀ i ∈ positions, i < n) : (List.range n).countP (· ∈ positions) = positions.length := by
  rw [List.countP_eq_length_filter]
  refine ((List.perm_ext_iff_of_nodup (List.nodup_range.filter _) distinct).2 fun i => ?_).length_eq
  rw [List.mem_filter, List.mem_range, decide_eq_true_iff]
  exact ⟨And.right, fun member => ⟨inside i member, member⟩⟩

theorem Prunes.count {before after : List Task} {positions : List Nat}
    (prunes : Prunes before after positions) :
    after.length + unkept before.length positions = before.length := by
  have split := List.length_eq_countP_add_countP (fun i => decide (i ∈ positions)) (l :=
    List.range before.length)
  rw [count_positions prunes.distinct prunes.inside, List.length_range] at split
  rw [prunes.kept, length_kept prunes.inside]
  simpa [unkept] using split.symm

theorem Prunes.rejected {raw finding : Finding} {positions : List Nat}
    (prunes : Prunes raw.suggestedDirections finding.suggestedDirections positions) :
    finding.suggestedDirections.length ≤ raw.suggestedDirections.length ∧
      rejectedCount raw finding = UInt64.ofNat (unkept raw.suggestedDirections.length positions) := by
  have count := prunes.count
  refine ⟨by omega, ?_⟩
  have sum := congrArg UInt64.ofNat count
  rw [UInt64.ofNat_add, UInt64.add_comm] at sum
  unfold rejectedCount
  rw [← sum, UInt64.add_sub_cancel]

/-- Every event about a judgement is about one on record. -/
def Told (parser : Parser) (w : World) : Prop :=
  ∀ shown ∈ w.events, (∃ fields, shown = event "judge_result" fields) → ∃ task raw reply,
    shown = judgeResult task raw (judged parser raw reply) ∧
      .reviewed raw reply (judged parser raw reply) ∈ w.trace

structure Silent (w w' : World) : Prop where
  events : w'.events = w.events
  trace : w.trace <+: w'.trace

variable {parser : Parser}

theorem Told.silent {w w' : World} (told : Told parser w) (silent : Silent w w') : Told parser w' := by
  intro shown member about
  rw [silent.events] at member
  obtain ⟨task, raw, reply, same, known⟩ := told shown member about
  exact ⟨task, raw, reply, same, silent.trace.subset known⟩

theorem Told.emit {w : World} {shown : Json} (told : Told parser w)
    (fits : (∃ fields, shown = event "judge_result" fields) → ∃ task raw reply,
      shown = judgeResult task raw (judged parser raw reply) ∧
        .reviewed raw reply (judged parser raw reply) ∈ w.trace) :
    Told parser { w with events := w.events ++ [shown] } := by
  intro other member about
  rcases List.mem_append.1 member with earlier | now
  · exact told other earlier about
  · cases List.mem_singleton.1 now
    exact fits about

theorem event_name {one other : String} (apart : ascii one ≠ ascii other)
    {fields fields' : List (String × Json)} :
    event one fields ≠ event other fields' := by
  intro same
  simp only [event, Json.obj.injEq, List.cons.injEq, Prod.mk.injEq, Json.str.injEq] at same
  exact apart same.1.2

abbrev Keeping (parser : Parser) {α : Type} (program : Prog α) : Prop :=
  Keeps (fun w w' => Told parser w → Told parser w') program

theorem keeping_bind {α β : Type} {program : Prog α} {next : α → Prog β} (first : Keeping parser program)
    (second : ∀ a, Keeping parser (next a)) : Keeping parser (program >>= next) :=
  Keeps.bind (fun _ _ _ one two told => two (one told)) first second

theorem keeping_pure {α : Type} (a : α) : Keeping parser (Pure.pure a : Prog α) := fun _ told => told

theorem keeping_silent {α : Type} {program : Prog α} (silent : Keeps Silent program) :
    Keeping parser program :=
  fun w => (silent w).imp (fun _ _ quiet told => told.silent quiet) fun _ _ quiet told => told.silent quiet

theorem keeping_record (act : Act) : Keeping parser (record act) :=
  keeping_silent fun _ => ⟨rfl, List.prefix_append _ _⟩

theorem keeping_now (env : Environment) : Keeping parser (now env) :=
  keeping_silent fun _ => ⟨rfl, List.prefix_refl _⟩

theorem keeping_generate (env : Environment) (config : OllamaConfig) (prompt systemPrompt : Bytes) :
    Keeping parser (generate env config prompt systemPrompt) :=
  keeping_silent fun _ => runs_generate (fun _ => ⟨rfl, List.prefix_refl _⟩) fun _ =>
    ⟨rfl, List.prefix_refl _⟩

theorem keeping_emit {name : String} (apart : ascii name ≠ ascii "judge_result")
    (fields : List (String × Json)) : Keeping parser (emit (event name fields)) := by
  intro w
  refine runs_emit (fun _ told => told.emit ?_) fun _ told => told
  rintro ⟨other, same⟩
  exact absurd same (event_name apart)

theorem keeping_execute {φ : Type} (role : Agent.Role φ) (env : Environment) (setup : Agent.Setup)
    (task : Task) :
    Keeping parser (role.execute env setup task) := by
  refine keeping_silent fun w => (role.execute_runs env setup task w).imp ?_ ?_
  · rintro finding w' ⟨subs, -, adds⟩
    exact ⟨adds.events, ⟨_, adds.trace.symm⟩⟩
  · rintro e w' ⟨-, subs, area, shown, -, adds⟩
    exact ⟨adds.events, ⟨_, adds.trace.symm⟩⟩

variable (engine : Engine) (env : Environment) (question : Bytes)

theorem keeping_investigate (task : Types.Task) :
    Keeping env.parser (investigate engine env question task) := by
  refine keeping_bind (keeping_execute Worker.role env _ task) fun raw =>
    keeping_bind (keeping_emit (by decide) _) fun _ w => Runs.suppose fun told => ?_
  refine Runs.bind ((review_runs env engine.client question raw w).imp ?_ ?_)
  · rintro finding w' ⟨reply, rfl, adds⟩
    have now := told.silent ⟨adds.events, ⟨_, adds.trace.symm⟩⟩
    have reviewed : .reviewed raw reply (judged env.parser raw reply) ∈ w'.trace := by simp [adds.trace]
    exact Runs.bind (runs_emit
      (fun _ => Runs.pure (now.emit fun _ => ⟨task, raw, reply, rfl, reviewed⟩)) fun _ => now)
  · rintro e w' ⟨-, -, -, adds⟩
    exact told.silent ⟨adds.events, ⟨_, adds.trace.symm⟩⟩

theorem keeping_settle (task : Types.Task) (finding : Finding) (gathered : List Finding) :
    Keeping parser (settle task finding gathered) := by
  unfold settle
  split_ifs
  · exact keeping_bind (keeping_emit (by decide) _) fun _ => keeping_pure _
  · exact keeping_pure _

theorem keeping_answerFrom (reason : Bytes) (result : ResearchResult) :
    Keeping parser (answerFrom engine env question reason result) := by
  unfold answerFrom
  split
  · refine keeping_bind (keeping_bind (keeping_generate env _ _ _) fun response => ?_) fun _ =>
      keeping_bind (keeping_emit (by decide) _) fun _ => keeping_pure _
    cases response <;> exact keeping_pure _
  · exact keeping_pure _

theorem keeping_research : Keeping env.parser (research engine env question) := by
  refine keeping_bind (keeping_now env) fun engineStart => keeping_bind
      (keeping_emit (by decide) _) fun _ =>
    keeping_bind (keeping_bind (keeping_generate env _ _ _) fun response => ?_) fun keywords =>
    keeping_bind (keeping_emit (by decide) _) fun _ => keeping_bind (fun _ told => told) fun fs => ?_
  · cases response <;> exact keeping_pure _
  dsimp only
  split_ifs
  · exact keeping_bind (keeping_now env) fun _ => keeping_bind (keeping_emit (by decide) _) fun _ =>
      keeping_pure _
  · refine keeping_bind (Keeps.foldlM (fun _ told => told) (fun _ _ _ one two told => two (one told))
      (fun queue t => ?_) _ _) fun queue => keeping_bind ?_ fun ended => ?_
    · exact keeping_bind (keeping_record _) fun _ => keeping_bind (keeping_emit (by decide) _)
        fun _ => keeping_pure _
    · exact (steps engine env question).keeps_explore (fun _ told => told)
        (fun _ _ _ one two told => two (one told))
        (fun _ _ told => told) keeping_record (fun _ => keeping_emit (by decide) _)
        (fun _ => keeping_emit (by decide) _) (keeping_investigate engine env question) keeping_settle
        env _ _ _ _
    · exact keeping_bind (keeping_now env) fun _ => keeping_bind
          (keeping_answerFrom engine env question _ _) fun _ =>
        keeping_bind (keeping_emit (by decide) _) fun _ => keeping_pure _

/-- A reply prunes every finding exactly when it lists no position twice; and in every run, whatever the
other replies are, the event about a judgement with such a reply counts the directions not kept. -/
theorem judge_prunes (engine : Engine) (env : Environment) (question : Bytes) (w : World) :
    (∀ raw n, (∀ finding : Finding, finding.suggestedDirections.length = n → ∃ positions,
      Prunes finding.suggestedDirections
        (applyJudgeResponse env.parser raw finding).suggestedDirections positions) ↔
      ListsOnce env.parser raw n) ∧
      let last := finalState (research engine env question { w with events := [], trace := [] })
      ∀ shown ∈ last.events, (∃ fields, shown = event "judge_result" fields) → ∃ task raw reply finding,
        shown = judgeResult task raw finding ∧ .reviewed raw reply finding ∈ last.trace ∧
        ((∀ text, reply = some text → ListsOnce env.parser text raw.suggestedDirections.length) →
          ∃ positions, Prunes raw.suggestedDirections finding.suggestedDirections positions ∧
            finding.suggestedDirections.length ≤ raw.suggestedDirections.length ∧
            rejectedCount raw finding =
                UInt64.ofNat (unkept raw.suggestedDirections.length positions)) := by
  refine ⟨prunes_iff env.parser, ?_⟩
  intro last shown member about
  have told : Told env.parser last := by
    refine Runs.final ((keeping_research engine env question
      { w with events := [], trace := [] }).imp ?_ ?_)
    · exact fun _ w' kept => kept fun _ absent => by cases absent
    · exact fun _ w' kept => kept fun _ absent => by cases absent
  obtain ⟨task, raw, reply, same, reviewed⟩ := told shown member about
  refine ⟨task, raw, reply, _, same, reviewed, fun once => ?_⟩
  cases reply with
  | none =>
    have whole : Prunes raw.suggestedDirections raw.suggestedDirections
      (List.range raw.suggestedDirections.length) :=
      ⟨List.nodup_range, fun i => List.mem_range.1, (filterMap_range _).symm⟩
    exact ⟨_, whole, whole.rejected⟩
  | some text =>
    obtain ⟨positions, prunes⟩ := prunes_of_listsOnce (once text rfl)
    exact ⟨positions, prunes, prunes.rejected⟩

def twiceReply : Bytes := ascii "\x7b\"keep_direction_indices\": [0, 0]\x7d"

def twiceParser : Parser :=
  .table [(twiceReply, .obj [(ascii "keep_direction_indices", .arr [.unsigned 0, .unsigned 0])])]
    (by decide +kernel)

def twiceFinding : Finding :=
  { outcome := .partialWithDirections
    summary := ascii "partly"
    suggestedDirections :=
      [{ id := ascii "task-1", targetArea := ascii "b.cpp", researchGoal := ascii "look" }] }

/-- The judge returns one direction twice, and the number of rejected ones wraps below zero. -/
theorem judge_repeats :
    (¬ ∃ positions, Prunes twiceFinding.suggestedDirections
      (applyJudgeResponse twiceParser twiceReply twiceFinding).suggestedDirections positions) ∧
    rejectedCount twiceFinding (applyJudgeResponse twiceParser twiceReply twiceFinding) =
        18446744073709551615 := by
  refine ⟨?_, by decide +kernel⟩
  rintro ⟨positions, prunes⟩
  have count := prunes.count
  have two : (applyJudgeResponse twiceParser twiceReply twiceFinding).suggestedDirections.length = 2 := by
    decide +kernel
  rw [two] at count
  change 2 + _ = 1 at count
  omega

end CppCoder.Pruning
