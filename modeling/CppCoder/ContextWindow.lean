import Mathlib.Algebra.GroupWithZero.Nat
import CppCoder.Worker
import CppCoder.Editor
import CppCoder.EngineLoop
import CppCoder.ScanPlacement
import CppCoder.Samples

/-! Whether a prompt fits the context window that is requested for it. The window is the client's, the
scanner's budget bounds the code in the prompt, and nothing bounds the text around the code. -/

namespace CppCoder.ContextWindow
open Support Utf8 JsonValue Program CppCoder.Types CodebaseScanner ScanPlacement Session OllamaClient Agent

/-! ### The prompts that are passed on -/

variable {φ : Type}

/-- `ask` with any client in place of its own. -/
def askThrough (role : Role φ) (env : Environment) (client : Bytes → Prog (Option Bytes))
    (task : Task) (area : Bytes) (scan : ScanResult) : Prog φ :=
  if scan.filesIncluded = [] then return role.blank area
  else do
    match ← client (role.buildPrompt { task with targetArea := area } scan) with
    | none => return role.blank area
    | some response =>
        modifyGet fun w =>
          let (finding, n) := role.parseResponse env.parser (w.counters role.counter) response area
          (finding, w.setCounter role.counter n)

def executeThrough (role : Role φ) (env : Environment) (setup : Setup)
    (client : Bytes → Prog (Option Bytes)) (task : Task) (area : Bytes) : Prog φ := do
  record (.investigating task area)
  let start ← now env
  let fs ← (fun w : World => w.disk.fs) <$> get
  let shown := setup.scanner.scanShown fs area setup.tokenBudget
  record (.scanned area shown)
  let finding ← askThrough role env client task area shown.result
  let stop ← now env
  let finding := role.setDuration (toMilliseconds (stop - start))
    (role.setPromptTokens shown.result.approxTokens finding)
  record (role.toAct finding)
  return finding

theorem executeThrough_generate (role : Role φ) (env : Environment) (setup : Setup) (task : Task)
    (area : Bytes) :
    executeThrough role env setup (fun prompt => generate env setup.client prompt []) task area =
      role.executeSingleArea env setup task area := rfl

def refusing (env : Environment) (setup : Setup) (refused prompt : Bytes) : Prog (Option Bytes) :=
  if prompt = refused then throw (.filesystem .io) else generate env setup.client prompt []

/-- A prompt is passed on if to fail with it is to fail altogether. -/
def Passes (role : Role φ) (env : Environment) (setup : Setup) (task : Task) (area : Bytes) (w : World)
    (prompt : Bytes) : Prop :=
  ∃ w', executeThrough role env setup (refusing env setup prompt) task area w = .error (.filesystem .io) w'

def scanOf (setup : Setup) (w : World) (area : Bytes) : ScanResult :=
  setup.scanner.scan w.disk.fs area setup.tokenBudget

theorem executeThrough_runs (role : Role φ) (env : Environment) (setup : Setup)
    (client : Bytes → Prog (Option Bytes)) (task : Task) (area : Bytes) (w : World) :
    Runs (executeThrough role env setup client task area) w
      (fun _ _ => (scanOf setup w area).filesIncluded ≠ [] → ∃ reply before after,
        client (role.buildPrompt { task with targetArea := area } (scanOf setup w area)) before =
          .ok reply after)
      (fun e _ => (scanOf setup w area).filesIncluded ≠ [] ∧ ∃ before after,
        client (role.buildPrompt { task with targetArea := area } (scanOf setup w area)) before =
            .error e after) := by
  have asks : ∀ before, Runs (askThrough role env client task area (scanOf setup w area)) before
      (fun _ _ => (scanOf setup w area).filesIncluded ≠ [] → ∃ reply before after,
        client (role.buildPrompt { task with targetArea := area } (scanOf setup w area)) before =
          .ok reply after)
      (fun e _ => (scanOf setup w area).filesIncluded ≠ [] ∧ ∃ before after,
        client (role.buildPrompt { task with targetArea := area } (scanOf setup w area)) before =
            .error e after) := by
    intro before
    unfold askThrough
    split_ifs with nothing
    · exact Runs.pure fun some => absurd nothing some
    · refine Runs.bind (Runs.intro ?_ ?_)
      · intro reply after replied
        cases reply with
        | none => exact Runs.pure fun _ => ⟨_, _, _, replied⟩
        | some response => exact Runs.modifyGet fun _ => ⟨_, _, _, replied⟩
      · intro e after failed
        exact ⟨nothing, _, _, failed⟩
  unfold executeThrough
  refine Runs.bind (runs_record (Runs.bind (runs_now (Runs.bind (runs_get (Runs.bind (runs_record
    (Runs.bind ?_))))))))
  refine (asks _).weaken fun _ _ asked => ?_
  exact Runs.bind (runs_now (Runs.bind (runs_record (Runs.pure asked))))

/-- A prompt is passed on when the scan shows something, and it is the one built from the task and the
scan. -/
theorem passes_iff (role : Role φ) (env : Environment) (setup : Setup) (task : Task)
    (area : Bytes) (w : World)
    (prompt : Bytes) : Passes role env setup task area w prompt ↔ (scanOf setup w area).filesIncluded ≠ [] ∧
      prompt = role.buildPrompt { task with targetArea := area } (scanOf setup w area) := by
  have run := executeThrough_runs role env setup (refusing env setup prompt) task area w
  constructor
  · rintro ⟨w', failed⟩
    obtain ⟨something, before, after, refused⟩ := run.error failed
    refine ⟨something, ?_⟩
    by_contra other
    have asked : refusing env setup prompt (role.buildPrompt { task with targetArea := area }
      (scanOf setup w area)) =
        generate env setup.client (role.buildPrompt { task with targetArea := area }
          (scanOf setup w area)) [] :=
      if_neg fun same => other same.symm
    rw [asked] at refused
    have types : Runs (generate env setup.client (role.buildPrompt { task with targetArea := area }
        (scanOf setup w area)) []) before (fun _ _ => True) fun e _ => e = .type :=
      runs_generate (fun _ => trivial) fun _ => rfl
    cases types.error refused
  · rintro ⟨something, rfl⟩
    cases result : executeThrough role env setup
      (refusing env setup (role.buildPrompt { task with targetArea := area }
        (scanOf setup w area))) task area w with
    | ok finding w' =>
      obtain ⟨reply, before, after, replied⟩ := run.ok result something
      simp only [refusing, if_pos] at replied
      cases replied
    | error e w' =>
      obtain ⟨-, before, after, failed⟩ := run.error result
      simp only [refusing, if_pos] at failed
      cases failed
      exact ⟨w', result⟩

def windowOf (body : Json) : Option Int :=
  match body.member "options" with
  | .ok (some options) =>
      match options.member "num_ctx" with
      | .ok (some (.integer n)) => some n
      | _ => none
  | _ => none

/-- The estimate of a prompt is no more than the window in the request that holds it. -/
def Fits (config : OllamaConfig) (prompt : Bytes) : Prop :=
  ∃ n, windowOf (requestBody config prompt []) = some n ∧ ((estimateTokens prompt).toNat : Int) ≤ n

theorem estimateTokens_toNat (text : Bytes) : (estimateTokens text).toNat =
    text.length % UInt64.size / 4 + 1 := by
  have small : text.length % UInt64.size / 4 + 1 < UInt64.size := by
    have bound : text.length % UInt64.size < UInt64.size := Nat.mod_lt _ (by decide)
    unfold UInt64.size at bound ⊢
    omega
  unfold estimateTokens
  rw [UInt64.toNat_add, UInt64.toNat_div]
  simpa using Nat.mod_eq_of_lt small

theorem fits_iff (config : OllamaConfig) (prompt : Bytes) :
    Fits config prompt ↔ ((prompt.length % UInt64.size : Nat) : Int) < 4 * config.numCtx := by
  have window : windowOf (requestBody config prompt []) = some config.numCtx := rfl
  unfold Fits
  rw [window, estimateTokens_toNat]
  constructor
  · rintro ⟨n, same, bound⟩
    cases same
    omega
  · intro bound
    exact ⟨config.numCtx, rfl, by omega⟩

section FirstFit
variable {α : Type} (cost : α → UInt64) (budget : UInt64)

def taken (used : UInt64) : List α → List α
  | [] => []
  | a :: rest => if budget < used + cost a then taken used rest else a :: taken (used + cost a) rest

def left (used : UInt64) : List α → List α
  | [] => []
  | a :: rest => if budget < used + cost a then a :: left used rest else left (used + cost a) rest

end FirstFit

/-- The readable files of an area in the order of the scan, with the names under which it shows them. -/
def files (setup : Setup) (w : World) (area : Bytes) : List (Bytes × Bytes) :=
  setup.scanner.files w.disk.fs area

def cost (file : Bytes × Bytes) : UInt64 := estimateTokens (header file.1) + estimateTokens file.2

def shownFiles (setup : Setup) (w : World) (area : Bytes) : List (Bytes × Bytes) :=
  taken cost setup.tokenBudget 0 (files setup w area)

def omittedFiles (setup : Setup) (w : World) (area : Bytes) : List (Bytes × Bytes) :=
  left cost setup.tokenBudget 0 (files setup w area)

theorem scan_readings (scanner : Scanner) (fs : Support.Disk.FileSystem) (area : Bytes)
    (tokenBudget : UInt64) : scanner.scan fs area tokenBudget =
      (scanner.files fs area).foldl (fun result file => addReading tokenBudget result (some file)) {} := by
  have run : ∀ (entries : List Support.Walk.Entry) (shown : Shown),
      (entries.foldl (scanner.addFile fs tokenBudget) shown).result =
        ((entries.filterMap fun entry => readEntry fs entry).map fun source =>
          (scanner.relative fs source.1, source.2)).foldl
          (fun result file => addReading tokenBudget result (some file)) shown.result := by
    intro entries
    induction entries with
    | nil => intro shown; rfl
    | cons entry rest ih =>
      intro shown
      rw [List.foldl_cons, ih, addFile_result]
      cases opened : readEntry fs entry with
      | none =>
        rw [List.filterMap_cons]
        simp only [opened]
        rfl
      | some source =>
        rw [List.filterMap_cons]
        simp only [opened]
        rfl
  have shade : ∀ (names : List Bytes) (shown : Shown),
      (names.foldl (Scanner.addShade tokenBudget) shown).result =
        (names.map fun relPath => (relPath, ([] : Bytes))).foldl
          (fun result file => addReading tokenBudget result (some file)) shown.result := by
    intro names shown
    rw [List.foldl_map]
    exact (List.foldl_hom Shown.result fun shown relPath =>
      (addShade_result tokenBudget shown relPath).symm).symm
  unfold Scanner.scan Scanner.scanShown Scanner.files
  rw [List.foldl_append, shade, run]
  rfl

structure Lists (before result : ScanResult) (shown omitted : List (Bytes × Bytes)) : Prop where
  included : result.filesIncluded = before.filesIncluded ++ shown.map Prod.fst
  skipped : result.filesSkippedBudget = before.filesSkippedBudget ++ omitted.map Prod.fst
  content : result.concatenatedContent =
    before.concatenatedContent ++ shown.flatMap fun file => header file.1 ++ file.2

theorem addReadings_lists (tokenBudget : UInt64) (found : List (Bytes × Bytes)) (before : ScanResult) :
    Lists before (found.foldl (fun result file => addReading tokenBudget result (some file)) before)
      (taken cost tokenBudget before.approxTokens found)
          (left cost tokenBudget before.approxTokens found) := by
  induction found generalizing before with
  | nil => exact ⟨by simp [taken], by simp [left], by simp [taken]⟩
  | cons file rest ih =>
    rw [List.foldl_cons]
    have later := ih (addReading tokenBudget before (some file))
    by_cases exceeds : tokenBudget < before.approxTokens + cost file
    · have skipped : addReading tokenBudget before (some file) =
          { before with filesSkippedBudget := before.filesSkippedBudget ++ [file.1] } := if_pos exceeds
      rw [skipped] at later ⊢
      rw [taken, left, if_pos exceeds, if_pos exceeds]
      exact ⟨later.included, by simpa using later.skipped, later.content⟩
    · have added : addReading tokenBudget before (some file) = { before with
          concatenatedContent := before.concatenatedContent ++ header file.1 ++ file.2
          filesIncluded := before.filesIncluded ++ [file.1]
          approxTokens := before.approxTokens + cost file } := if_neg exceeds
      rw [added] at later ⊢
      rw [taken, left, if_neg exceeds, if_neg exceeds]
      exact ⟨by simpa using later.included, later.skipped, by simpa using later.content⟩

theorem scan_lists (setup : Setup) (w : World) (area : Bytes) :
    Lists {} (scanOf setup w area) (shownFiles setup w area) (omittedFiles setup w area) := by
  unfold scanOf
  rw [scan_readings]
  exact addReadings_lists _ _ _

/-- The text that a prompt has in any case, and that of its note about files left out, but for their
number. -/
structure Frame where
  fixed : Nat
  note : Nat

def workerFrame : Frame := ⟨1011, 95⟩

def editorFrame : Frame := ⟨1565, 146⟩

def noteSize (frame : Frame) (omitted : Nat) : Nat :=
  if omitted = 0 then 0 else frame.note + (decimal omitted).length

def promptSize (frame : Frame) (task : Task) (area : Bytes) (shown : List (Bytes × Bytes))
    (omitted : Nat) : Nat :=
  frame.fixed + task.researchGoal.length + task.successCriteria.length + area.length +
    (shown.map fun file => 15 + file.1.length + file.2.length).sum + noteSize frame omitted

theorem content_length (shown : List (Bytes × Bytes)) :
    (shown.flatMap fun file => header file.1 ++ file.2).length =
      (shown.map fun file => 15 + file.1.length + file.2.length).sum := by
  rw [List.length_flatMap]
  congr 1
  apply List.map_congr_left
  intro file _
  have opening : (ascii "\n// ==== ").length = 9 := by decide
  have closing : (ascii " ====\n").length = 6 := by decide
  unfold header
  rw [List.length_append, List.length_append, List.length_append, opening, closing]
  omega

/-- The text of a role around what it is told about. -/
structure Framed (role : Role φ) (frame : Frame) : Prop where
  size : ∀ task scan, (role.buildPrompt task scan).length = frame.fixed + task.researchGoal.length +
    task.successCriteria.length + task.targetArea.length + scan.concatenatedContent.length +
    noteSize frame scan.filesSkippedBudget.length

theorem around_length (a b c d e f g h i j k l goal criteria area content note : Bytes) :
    (a ++ b ++ c ++ goal ++ d ++ e ++ criteria ++ f ++ g ++ area ++ h ++ i ++ content ++ j ++ k ++
      note ++ l).length =
      (a ++ b ++ c ++ [] ++ d ++ e ++ [] ++ f ++ g ++ [] ++ h ++ i ++ [] ++ j ++ k ++ [] ++ l).length +
        (goal.length + criteria.length + area.length + content.length + note.length) := by
  simp only [List.length_append, List.length_nil]
  omega

theorem note_length (frame : Frame) (a b c : Bytes) (text : (a ++ b ++ c).length = frame.note)
    (skipped : List Bytes) :
    (if skipped = [] then [] else a ++ decimal skipped.length ++ b ++ c).length =
        noteSize frame skipped.length := by
  unfold noteSize
  cases skipped with
  | nil => rfl
  | cons name rest =>
    rw [if_neg (by simp), if_neg (by simp)]
    simp only [List.length_append] at text ⊢
    omega

theorem Framed.of_growth {role : Role φ} {frame : Frame} (noteOf : List Bytes → Bytes)
    (fixed : (role.buildPrompt {} {}).length = frame.fixed)
    (note : ∀ skipped, (noteOf skipped).length = noteSize frame skipped.length)
    (growth : ∀ task scan, (role.buildPrompt task scan).length = (role.buildPrompt {} {}).length +
      (task.researchGoal.length + task.successCriteria.length + task.targetArea.length +
        scan.concatenatedContent.length + (noteOf scan.filesSkippedBudget).length)) :
            Framed role frame := by
  refine ⟨fun task scan => ?_⟩
  rw [growth, fixed, note]
  omega

theorem worker_framed : Framed Worker.role workerFrame := by
  have fixed : (Worker.buildPrompt {} {}).length = workerFrame.fixed := by decide +kernel
  have note : ∀ skipped, (Worker.skippedNote skipped).length = noteSize workerFrame skipped.length :=
    note_length workerFrame _ _ _ (by decide +kernel)
  exact .of_growth Worker.skippedNote fixed note fun _ _ => around_length _ _ _ _ _ _ _ _ _ _ _ _ _ _ _ _ _

theorem editor_framed : Framed Editor.role editorFrame := by
  have fixed : (Editor.buildPrompt {} {}).length = editorFrame.fixed := by decide +kernel
  have note : ∀ skipped, (Editor.skippedNote skipped).length = noteSize editorFrame skipped.length :=
    note_length editorFrame _ _ _ (by decide +kernel)
  exact .of_growth Editor.skippedNote fixed note fun _ _ => around_length _ _ _ _ _ _ _ _ _ _ _ _ _ _ _ _ _

/-! ### When prompts fit -/

/-- Nothing is shown, or the text around the code leaves room in the window for the code. -/
def Room (frame : Frame) (setup : Setup) (task : Task) (area : Bytes) (w : World) : Prop :=
  shownFiles setup w area = [] ∨
    ((promptSize frame task area (shownFiles setup w area) (omittedFiles setup w area).length %
      UInt64.size : Nat) : Int) <
      4 * setup.client.numCtx

theorem prompt_length {role : Role φ} {frame : Frame} (framed : Framed role frame) (setup : Setup)
    (task : Task) (area : Bytes) (w : World) :
    (role.buildPrompt { task with targetArea := area } (scanOf setup w area)).length =
      promptSize frame task area (shownFiles setup w area) (omittedFiles setup w area).length := by
  have lists := scan_lists setup w area
  rw [framed.size, lists.content, lists.skipped, List.nil_append, List.nil_append, content_length,
    List.length_map]
  rfl

theorem framed_fit_iff {role : Role φ} {frame : Frame} (framed : Framed role frame)
    (env : Environment) (setup : Setup) (task : Task) (area : Bytes) (w : World) :
    (∀ prompt, Passes role env setup task area w prompt → Fits setup.client prompt) ↔
        Room frame setup task area w := by
  have included : (scanOf setup w area).filesIncluded = [] ↔ shownFiles setup w area = [] := by
    rw [(scan_lists setup w area).included, List.nil_append, List.map_eq_nil_iff]
  unfold Room
  constructor
  · intro fits
    by_cases nothing : shownFiles setup w area = []
    · exact .inl nothing
    · right
      have passed := (passes_iff role env setup task area w _).2
        ⟨fun none => nothing (included.1 none), rfl⟩
      have bound := (fits_iff _ _).1 (fits _ passed)
      rwa [prompt_length framed] at bound
  · rintro room prompt passed
    obtain ⟨something, rfl⟩ := (passes_iff role env setup task area w prompt).1 passed
    rw [fits_iff, prompt_length framed]
    exact room.resolve_left fun nothing => something (included.2 nothing)

/-- The prompts of a worker and of an editor fit the window exactly when there is room for what is shown. -/
theorem prompts_fit_iff (env : Environment) (setup : Setup) (task : Task) (area : Bytes) (w : World) :
    ((∀ prompt, Passes Worker.role env setup task area w prompt → Fits setup.client prompt) ↔
      Room workerFrame setup task area w) ∧
    ((∀ prompt, Passes Editor.role env setup task area w prompt → Fits setup.client prompt) ↔
      Room editorFrame setup task area w) :=
  ⟨framed_fit_iff worker_framed env setup task area w, framed_fit_iff editor_framed env setup task area w⟩

/-! Under the options that a run has by default, in a codebase of one file. -/

def oneTree (content : Bytes) : Support.Tree.Dir :=
  .sub Samples.r (.leaf Samples.aCpp (.file content true) .nil) .nil

theorem oneTree_distinct (content : Bytes) : (oneTree content).Distinct :=
  ⟨List.not_mem_nil, ⟨List.not_mem_nil, trivial⟩, trivial⟩

def oneFile (content : Bytes) : Support.Disk.FileSystem where
  tree := oneTree content
  distinct := oneTree_distinct content
  cwd := []

def byDefault : Setup :=
  ⟨{}, ⟨Support.Paths.ofBytes (ascii "/r"), defaultExtensions⟩,
    ({} : EngineLoop.EngineConfig).tokenBudgetPerTask⟩

def offline : Environment where
  parser := ⟨fun _ => none, nofun⟩
  http _ := .failed
  clock _ := 0
  faults _ := .none

theorem oneFile_files (content : Bytes) : files byDefault { disk := { fs := oneFile content } }
    (ascii "a.cpp") =
    [(ascii "a.cpp", content)] := rfl

/-! A file that is as long as the whole window. -/

def oneWorld (content : Bytes) : World := { disk := { fs := oneFile content } }

def someTask : Task :=
  { id := ascii "seed", targetArea := ascii "a.cpp", researchGoal := ascii "add a cache" }

section Long
variable {content : Bytes} (long : content.length = 131072)

include long

theorem long_shown : shownFiles byDefault (oneWorld content) (ascii "a.cpp") = [(ascii "a.cpp", content)] ∧
    omittedFiles byDefault (oneWorld content) (ascii "a.cpp") = [] := by
  have fits : ¬ byDefault.tokenBudget < 0 + cost (ascii "a.cpp", content) := by
    have header : (header (ascii "a.cpp")).length = 20 := by decide
    unfold cost estimateTokens
    rw [header, long]
    decide
  unfold shownFiles omittedFiles oneWorld
  rw [oneFile_files, taken, left, if_neg fits, if_neg fits]
  exact ⟨rfl, rfl⟩

theorem no_room {frame : Frame} (small : frame.fixed < 2000) :
    ¬ Room frame byDefault someTask (ascii "a.cpp") (oneWorld content) := by
  obtain ⟨shown, omitted⟩ := long_shown long
  have window : byDefault.client.numCtx = 32768 := rfl
  have size : promptSize frame someTask (ascii "a.cpp") [(ascii "a.cpp", content)] 0 =
      frame.fixed + 131108 := by
    have goal : someTask.researchGoal.length = 11 := by decide
    have criteria : someTask.successCriteria.length = 0 := rfl
    have name : (ascii "a.cpp").length = 5 := by decide
    have note : noteSize frame 0 = 0 := if_pos rfl
    unfold promptSize
    rw [List.map_singleton, List.sum_singleton, note]
    dsimp only
    omega
  have whole : (frame.fixed + 131108) % UInt64.size = frame.fixed + 131108 := by
    apply Nat.mod_eq_of_lt
    unfold UInt64.size
    omega
  unfold Room
  rw [shown, omitted, List.length_nil, size, whole, window]
  rintro (none | bound)
  · cases none
  · omega

end Long

/-- The default budget admits a file that alone fills the default window. -/
theorem window_overrun :
    (∃ prompt, Passes Worker.role offline byDefault someTask (ascii "a.cpp")
      (oneWorld (List.replicate 131072 32)) prompt ∧
        ¬ Fits byDefault.client prompt) ∧
      ∃ prompt, Passes Editor.role offline byDefault someTask (ascii "a.cpp")
        (oneWorld (List.replicate 131072 32)) prompt ∧
        ¬ Fits byDefault.client prompt := by
  have long : (List.replicate 131072 (32 : UInt8)).length = 131072 := List.length_replicate
  have worker := mt (framed_fit_iff worker_framed offline byDefault someTask (ascii "a.cpp") _).1
    (no_room long (by decide))
  have editor := mt (framed_fit_iff editor_framed offline byDefault someTask (ascii "a.cpp") _).1
    (no_room long (by decide))
  push Not at worker editor
  exact ⟨worker, editor⟩

end CppCoder.ContextWindow
