import CppCoder.OllamaClient
import CppCoder.Reply

/-! What a worker and an editor have in common: an area is scanned, the model is asked about it, and
its reply is read as a finding; a repeatable task does so for one area after another. -/

namespace CppCoder.Agent
open Support Utf8 JsonValue Program CppCoder.Types CodebaseScanner Session OllamaClient Reply

structure Setup where
  client : OllamaConfig
  scanner : Scanner
  tokenBudget : UInt64

structure Role (φ : Type) where
  buildPrompt : Task → ScanResult → Bytes
  /-- The finding that a reply about an area stands for, and the task counter after reading it. -/
  parseResponse : Parser → Nat → Bytes → Bytes → φ × Nat
  counter : TaskCounter
  /-- The finding about an area in which there was nothing. -/
  blank : Bytes → φ
  setPromptTokens : UInt64 → φ → φ
  setDuration : Int → φ → φ
  mergeSub : φ → Bytes → φ → φ
  toAct : φ → Act

/-- A prompt that has the code between two rules is UTF-8 when the name of the area and the code are. -/
theorem valid_prompt {goal criteria note shape : Bytes} (aim : Valid goal) (measure : Valid criteria)
    (noted : Valid note) (shaped : Valid shape) (opening more label : String) {place : String}
    (placed : ascii place ≠ []) (area code : Bytes) :
    Valid (ascii opening ++ ascii more ++ ascii label ++ goal ++ ascii "\n" ++
      ascii "Success criteria: " ++ criteria ++ ascii "\n\n" ++ ascii place ++ area ++ ascii "):\n" ++
      ascii "-----\n" ++ code ++ ascii "\n" ++ ascii "-----\n\n" ++ note ++ shape) ↔
    Valid area ∧ Valid code := by
  rw [valid_append_right shaped, valid_append_right noted, valid_append_ascii, valid_append_ascii,
    valid_between (valid_ascii _) (by decide), valid_append_ascii, valid_between (valid_ascii _) placed]
  simp only [valid_append_ascii, valid_append_right aim, valid_append_right measure, valid_ascii, true_and]

variable {φ : Type}

def Role.ask (role : Role φ) (env : Environment) (setup : Setup) (task : Task) (area : Bytes)
    (scan : ScanResult) : Prog φ :=
  if scan.filesIncluded = [] then return role.blank area
  else do
    match ← generate env setup.client (role.buildPrompt { task with targetArea := area } scan) [] with
    | none => return role.blank area
    | some response =>
        modifyGet fun w =>
          let (finding, n) := role.parseResponse env.parser (w.counters role.counter) response area
          (finding, w.setCounter role.counter n)

def Role.executeSingleArea (role : Role φ) (env : Environment) (setup : Setup) (task : Task)
    (area : Bytes) :
    Prog φ := do
  record (.investigating task area)
  let start ← now env
  let fs ← (fun w : World => w.disk.fs) <$> get
  let shown := setup.scanner.scanShown fs area setup.tokenBudget
  record (.scanned area shown)
  let finding ← role.ask env setup task area shown.result
  let stop ← now env
  let finding := role.setDuration (toMilliseconds (stop - start))
    (role.setPromptTokens shown.result.approxTokens finding)
  record (role.toAct finding)
  return finding

def Role.execute (role : Role φ) (env : Environment) (setup : Setup) (task : Task) : Prog φ := do
  if task.repeatable = false ∨ task.repeatTargets = [] then
    role.executeSingleArea env setup task task.targetArea
  else
    let mergeStart ← now env
    let merged ← task.repeatTargets.foldlM (fun merged subArea => do
      let sub ← role.executeSingleArea env setup task subArea
      return role.mergeSub merged subArea sub) (role.blank task.targetArea)
    let stop ← now env
    return role.setDuration (toMilliseconds (stop - mergeStart)) merged

/-! ### What an execution leaves behind -/

def areas (task : Task) : List Bytes :=
  if task.repeatable = false ∨ task.repeatTargets = [] then [task.targetArea] else task.repeatTargets

/-- The investigation of one area: what was shown to the model, and what came of it. -/
structure SubRun (φ : Type) where
  area : Bytes
  shown : Shown
  finding : φ

def SubRun.acts (role : Role φ) (task : Task) (sub : SubRun φ) : List Act :=
  [.investigating task sub.area, .scanned sub.area sub.shown, role.toAct sub.finding]

/-- The request that asks about an area. -/
def Role.request (role : Role φ) (setup : Setup) (task : Task) (area : Bytes) (shown : Shown) : Json :=
  requestBody setup.client (role.buildPrompt { task with targetArea := area } shown.result) []

/-- The area was shown as the tree has it; the model was asked if there was anything to show, and the
finding is what was read from its reply, or that there is nothing. -/
structure SubRun.Sound (role : Role φ) (env : Environment) (setup : Setup) (task : Task)
    (fs : Support.Disk.FileSystem) (sub : SubRun φ) : Prop where
  scanned : sub.shown = setup.scanner.scanShown fs sub.area setup.tokenBudget
  asked : sub.shown.result.filesIncluded ≠ [] →
    (role.request setup task sub.area sub.shown).dumpable = true
  report : ∃ reply tokens duration, sub.finding =
    role.setDuration duration (role.setPromptTokens tokens reply) ∧
    (reply = role.blank sub.area ∨ sub.shown.result.filesIncluded ≠ [] ∧
      ∃ n raw, reply = (role.parseResponse env.parser n raw sub.area).1)

/-- An area that cannot be asked about: the text of the request is not UTF-8. -/
structure Stuck (role : Role φ) (setup : Setup) (task : Task) (fs : Support.Disk.FileSystem) (area : Bytes)
    (shown : Shown) : Prop where
  scanned : shown = setup.scanner.scanShown fs area setup.tokenBudget
  something : shown.result.filesIncluded ≠ []
  dirty : ¬ (role.request setup task area shown).dumpable = true

theorem Role.ask_runs (role : Role φ) (env : Environment) (setup : Setup) (task : Task) (area : Bytes)
    (shown : Shown) (w : World) :
    Runs (role.ask env setup task area shown.result) w
      (fun reply w' => (shown.result.filesIncluded ≠ [] →
        (role.request setup task area shown).dumpable = true) ∧
        (reply = role.blank area ∨ shown.result.filesIncluded ≠ [] ∧
          ∃ n raw, reply = (role.parseResponse env.parser n raw area).1) ∧ Adds w [] w')
      (fun e w' => e = .type ∧ shown.result.filesIncluded ≠ [] ∧
        ¬ (role.request setup task area shown).dumpable = true ∧ Adds w [] w') := by
  have still : ∀ calls counters, Adds w [] { w with calls := calls, counters := counters } :=
    fun _ _ => ⟨by simp, rfl, rfl⟩
  unfold Role.ask
  split_ifs with nothing
  · exact Runs.pure ⟨absurd nothing, .inl rfl, still _ _⟩
  · refine Runs.bind (runs_generate (fun dumps => ?_) fun dirty => ?_)
    · cases responseText env.parser (env.http w.calls) with
      | none => exact Runs.pure ⟨fun _ => dumps, .inl rfl, still _ _⟩
      | some response =>
        exact Runs.modifyGet ⟨fun _ => dumps, .inr ⟨nothing, _, _, rfl⟩, still _ _⟩
    · exact ⟨rfl, nothing, dirty, still _ _⟩

theorem Role.executeSingleArea_runs (role : Role φ) (env : Environment) (setup : Setup) (task : Task)
    (area : Bytes) (w : World) :
    Runs (role.executeSingleArea env setup task area) w
      (fun finding w' => ∃ sub : SubRun φ, sub.area = area ∧ sub.finding = finding ∧
        sub.Sound role env setup task w.disk.fs ∧ Adds w (sub.acts role task) w')
      (fun e w' => e = .type ∧ ∃ shown, Stuck role setup task w.disk.fs area shown ∧
        Adds w [.investigating task area, .scanned area shown] w') := by
  unfold Role.executeSingleArea
  refine Runs.bind (runs_record (Runs.bind (runs_now (Runs.bind (runs_get (Runs.bind (runs_record
    (Runs.bind ?_))))))))
  apply (role.ask_runs env setup task area _ _).imp
  · rintro reply w' ⟨asked, report, adds⟩
    refine Runs.bind (runs_now (Runs.bind (runs_record (Runs.pure ?_))))
    refine ⟨⟨area, setup.scanner.scanShown w.disk.fs area setup.tokenBudget, _⟩, rfl, rfl,
      ⟨rfl, asked, reply, _, _, rfl, report⟩, ?_⟩
    exact ⟨by simp [SubRun.acts, adds.trace], adds.events, adds.disk⟩
  · rintro e w' ⟨type, something, dirty, adds⟩
    exact ⟨type, _, ⟨rfl, something, dirty⟩, by simp [adds.trace], adds.events, adds.disk⟩

def Role.Combines (role : Role φ) (task : Task) (subs : List (SubRun φ)) (finding : φ) : Prop :=
  if task.repeatable = false ∨ task.repeatTargets = [] then subs.map SubRun.finding = [finding]
  else ∃ duration, finding = role.setDuration duration
    (subs.foldl (fun merged sub => role.mergeSub merged sub.area sub.finding) (role.blank task.targetArea))

structure Role.Executed (role : Role φ) (env : Environment) (setup : Setup) (task : Task)
    (fs : Support.Disk.FileSystem) (subs : List (SubRun φ)) (finding : φ) : Prop where
  areas : subs.map SubRun.area = areas task
  each : ∀ sub ∈ subs, sub.Sound role env setup task fs
  combines : role.Combines task subs finding

structure Role.Interrupted (role : Role φ) (env : Environment) (setup : Setup) (task : Task)
    (fs : Support.Disk.FileSystem) (subs : List (SubRun φ)) (area : Bytes) (shown : Shown) : Prop where
  areas : ∃ rest, areas task = subs.map SubRun.area ++ area :: rest
  each : ∀ sub ∈ subs, sub.Sound role env setup task fs
  stuck : Stuck role setup task fs area shown

theorem Role.execute_runs (role : Role φ) (env : Environment) (setup : Setup) (task : Task) (w : World) :
    Runs (role.execute env setup task) w
      (fun finding w' => ∃ subs, role.Executed env setup task w.disk.fs subs finding ∧
        Adds w (subs.flatMap fun sub => sub.acts role task) w')
      (fun e w' => e = .type ∧ ∃ subs area shown, role.Interrupted env setup task w.disk.fs
        subs area shown ∧
        Adds w ((subs.flatMap fun sub => sub.acts role task) ++
          [.investigating task area, .scanned area shown]) w') := by
  unfold Role.execute
  split_ifs with single
  · have areas : areas task = [task.targetArea] := if_pos single
    apply (role.executeSingleArea_runs env setup task task.targetArea w).imp
    · rintro finding w' ⟨sub, area, same, sound, adds⟩
      refine ⟨[sub], ⟨by simp [areas, area], by simpa using sound, ?_⟩, by simpa using adds⟩
      unfold Role.Combines
      rw [if_pos single]
      simp [same]
    · rintro e w' ⟨type, shown, stuck, adds⟩
      exact ⟨type, [], _, shown, ⟨⟨[], by simp [areas]⟩, by simp, stuck⟩, by simpa using adds⟩
  · have areas : areas task = task.repeatTargets := if_neg single
    refine Runs.bind (runs_now (Runs.bind ?_))
    -- the areas read so far are those of the investigations made, merged into the accumulator
    refine (Runs.foldlM (fun read merged w' => ∃ subs : List (SubRun φ), subs.map SubRun.area = read ∧
        (∀ sub ∈ subs, sub.Sound role env setup task w.disk.fs) ∧
        merged = subs.foldl (fun merged sub => role.mergeSub merged sub.area sub.finding)
          (role.blank task.targetArea) ∧
        Adds w (subs.flatMap fun sub => sub.acts role task) w') task.repeatTargets ?_ ?_).weaken ?_
    · rintro read area rest merged w' split ⟨subs, done, each, rfl, adds⟩
      refine Runs.bind ((role.executeSingleArea_runs env setup task area w').imp ?_ ?_)
      · rintro finding w'' ⟨sub, rfl, rfl, sound, more⟩
        refine Runs.pure ⟨subs ++ [sub], by simp [done], ?_, by simp, ?_⟩
        · rw [adds.disk] at sound
          exact List.forall_mem_append.2 ⟨each, by simpa using sound⟩
        · rw [List.flatMap_append, List.flatMap_singleton]
          exact adds.trans more
      · rintro e w'' ⟨type, shown, stuck, more⟩
        rw [adds.disk] at stuck
        exact ⟨type, subs, area, shown, ⟨⟨rest, by rw [areas, done, split]⟩, each, stuck⟩, adds.trans more⟩
    · exact ⟨[], rfl, by simp, rfl, by simp, rfl, rfl⟩
    · rintro merged w' ⟨subs, done, each, same, adds⟩
      refine Runs.bind (runs_now (Runs.pure ⟨subs, ⟨by rw [done, areas], each, ?_⟩, ?_⟩))
      · unfold Role.Combines
        rw [if_neg single, same]
        exact ⟨_, rfl⟩
      · exact ⟨adds.trace, adds.events, adds.disk⟩

theorem Role.Executed.induction {role : Role φ} {env : Environment} {setup : Setup} {task : Task}
    {fs : Support.Disk.FileSystem} {subs : List (SubRun φ)} {finding : φ} {good : φ → Prop}
    (executed : role.Executed env setup task fs subs finding)
    (each : ∀ sub : SubRun φ, sub.Sound role env setup task fs → good sub.finding)
    (blank : good (role.blank task.targetArea))
    (merge : ∀ merged (sub : SubRun φ), sub.Sound role env setup task fs → good merged →
      good (role.mergeSub merged sub.area sub.finding))
    (timed : ∀ duration finding, good finding → good (role.setDuration duration finding)) :
        good finding := by
  have combines := executed.combines
  unfold Role.Combines at combines
  split_ifs at combines with single
  · obtain ⟨sub, rfl, rfl⟩ := List.map_eq_singleton_iff.1 combines
    exact each sub (executed.each sub (List.mem_singleton_self sub))
  · obtain ⟨duration, rfl⟩ := combines
    refine timed duration _ (List.foldlRecOn _ _ blank fun merged kept sub member => ?_)
    exact merge merged sub (executed.each sub member) kept

theorem SubRun.Sound.induction {role : Role φ} {env : Environment} {setup : Setup} {task : Task}
    {fs : Support.Disk.FileSystem} {sub : SubRun φ} {good : φ → Prop}
    (sound : sub.Sound role env setup task fs) (blank : good (role.blank sub.area))
    (parse : sub.shown.result.filesIncluded ≠ [] → ∀ n raw,
      good (role.parseResponse env.parser n raw sub.area).1)
    (measured : ∀ tokens duration finding, good finding →
      good (role.setDuration duration (role.setPromptTokens tokens finding))) : good sub.finding := by
  obtain ⟨reply, tokens, duration, same, read⟩ := sound.report
  rw [same]
  apply measured _ _ _
  rcases read with rfl | ⟨something, n, raw, rfl⟩
  · exact blank
  · exact parse something n raw

theorem Role.keeps_execute {condition : Act → Prop} (role : Role φ) (env : Environment) (setup : Setup)
    (task : Task) (investigating : ∀ area, condition (.investigating task area))
    (scanned : ∀ area shown, condition (.scanned area shown))
    (told : ∀ finding, condition (role.toAct finding)) :
    Keeps (Leaves condition) (role.execute env setup task) := by
  have acts : ∀ subs : List (SubRun φ), ∀ act ∈ subs.flatMap fun sub => sub.acts role task,
      condition act := by
    intro subs act member
    obtain ⟨sub, -, listed⟩ := List.mem_flatMap.1 member
    simp only [SubRun.acts, List.mem_cons, List.not_mem_nil, or_false] at listed
    rcases listed with rfl | rfl | rfl
    · exact investigating _
    · exact scanned _ _
    · exact told _
  intro w
  apply (role.execute_runs env setup task w).imp
  · rintro finding w' ⟨subs, -, adds⟩
    exact ⟨_, adds.trace, acts subs⟩
  · rintro e w' ⟨-, subs, area, shown, -, adds⟩
    refine ⟨_, adds.trace, List.forall_mem_append.2 ⟨acts subs, ?_⟩⟩
    simpa using ⟨investigating area, scanned area shown⟩

def Role.Prompts (role : Role φ) : Prop :=
  ∀ task scan, Valid task.researchGoal → Valid task.successCriteria →
    (Valid (role.buildPrompt task scan) ↔ Valid task.targetArea ∧ Valid scan.concatenatedContent)

theorem request_dumpable {role : Role φ} (prompts : role.Prompts) (setup : Setup) {task : Task}
    (clean : Clean task) (area : Bytes)
    (shown : Shown) : (role.request setup task area shown).dumpable = true ↔
      Valid setup.client.model ∧ Valid area ∧ Valid shown.result.concatenatedContent := by
  have prompt := prompts { task with targetArea := area } shown.result clean.researchGoal
    clean.successCriteria
  unfold Role.request
  rw [requestBody_dumpable, prompt, and_iff_left valid_nil]

end CppCoder.Agent
