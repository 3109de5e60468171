import CppCoder.MainProgram
import CppCoder.ReplayRuns

/-! What `cppcoder` does from its command line on: what it may change on disk, and how the exit code, what is
printed and the events file belong together. -/

namespace CppCoder.MainRuns
open Support Utf8 JsonValue Program Options CppCoder.Types Session PatchApplier Chronicle
open CommandLine MainProgram EngineFrames EventsFile ReplayDemo ReplayRuns
open Logging (Opened Apart initLogging_apart openTruncated_apart openTruncated_file)
open ViewerLogs (cacheWorld cacheParser cacheEntries helpful)

variable {host : Host} {argv : List Bytes} {args : Arguments} {w : World}

theorem last_given {options : List (Bytes × Bytes)} {name : Bytes}
    (given : (last options name).isSome = true) : name ∈ options.map Prod.fst := by
  unfold last at given
  rw [Option.isSome_map, List.getLast?_isSome] at given
  obtain ⟨option, member⟩ := List.exists_mem_of_ne_nil _ given
  obtain ⟨there, named⟩ := List.mem_filter.1 member
  exact List.mem_map.2 ⟨option, there, by simpa using named⟩

theorem on_commandLine {options : List (Bytes × Bytes)} {name : Bytes}
    (given : (last options name).isSome = true) : name ∈ commandLine options := by
  obtain ⟨option, member, rfl⟩ := List.mem_map.1 (last_given given)
  refine List.mem_flatMap.2 ⟨option, member, ?_⟩
  unfold spell
  split <;> simp

theorem parsed_settled (parsed : parseArguments argv = .ok args) : ∃ options, argv = commandLine options ∧
    args = settled (last options) := by
  obtain ⟨spelled, -, -⟩ := read_given parsed
  exact ⟨_, spelled, read_build (writes_of_agree options_agree) parsed⟩

theorem apply_given (parsed : parseArguments argv = .ok args) (applied : args.applyEdits = true) :
    ascii "--apply" ∈ argv := by
  obtain ⟨options, rfl, rfl⟩ := parsed_settled parsed
  exact on_commandLine applied

theorem task_given (parsed : parseArguments argv = .ok args) (asked : args.task ≠ []) :
    ascii "--task" ∈ argv := by
  obtain ⟨options, rfl, rfl⟩ := parsed_settled parsed
  apply on_commandLine
  cases none : last options (ascii "--task") with
  | none => exact absurd (show (settled (last options)).task = [] by simp [settled, none]) asked
  | some task => rfl

structure Edits (argv : List Bytes) (args : Arguments) : Prop where
  parsed : parseArguments argv = .ok args
  serves : args.serveMode = false
  asked : args.task ≠ []
  codebase : args.codebasePath ≠ []

structure Researches (argv : List Bytes) (args : Arguments) : Prop where
  parsed : parseArguments argv = .ok args
  serves : args.serveMode = false
  idle : args.task = []
  asked : args.question ≠ []
  codebase : args.codebasePath ≠ []

def edited (host : Host) (args : Arguments) (log : Opened) (w : World) : Outcome :=
  run host args (fun result => if result.anyEdits then 0 else 2) (printedEdits args.applyEdits)
    (editMode host args) log w

def researched (host : Host) (args : Arguments) (log : Opened) (w : World) : Outcome :=
  run host args (fun result => if result.answered then 0 else 2) printedResearch (researchMode host args) log w

/-- The rule for the program: it does nothing to the world, or opens its log file and then may run an engine. -/
theorem main_rule {P : Outcome → Prop} (host : Host) (argv : List Bytes) (w : World)
    (still : ∀ ended, P { ended, world := w })
    (logged : ∀ args ended, parseArguments argv = .ok args →
      P { ended, world := onTree w (openLog host args w.disk.fs).fs })
    (edit : ∀ args, Edits argv args →
      P (edited host args (openLog host args w.disk.fs) (onTree w (openLog host args w.disk.fs).fs)))
    (research : ∀ args, Researches argv args →
      P (researched host args (openLog host args w.disk.fs) (onTree w (openLog host args w.disk.fs).fs))) :
    P (main host argv w) := by
  unfold main
  cases parsed : parseArguments argv with
  | error refusal => cases refusal <;> exact still _
  | ok args =>
    dsimp only
    by_cases unlogged : args.logFilePath ≠ [] ∧ (openLog host args w.disk.fs).file = none
    · rw [if_pos unlogged]
      exact logged args _ parsed
    rw [if_neg unlogged]
    unfold serveOrRun
    cases serves : args.serveMode with
    | true => exact logged args _ parsed
    | false =>
      rw [if_neg Bool.false_ne_true]
      by_cases asked : args.task = []
      · rw [if_neg (not_not.2 asked)]
        by_cases lacking : args.question = [] ∨ args.codebasePath = []
        · rw [if_pos lacking]
          exact logged args _ parsed
        · rw [if_neg lacking]
          obtain ⟨question, codebase⟩ := not_or.1 lacking
          exact research args ⟨parsed, serves, asked, question, codebase⟩
      · rw [if_pos asked]
        by_cases bare : args.codebasePath = []
        · rw [if_pos bare]
          exact logged args _ parsed
        · rw [if_neg bare]
          exact edit args ⟨parsed, serves, asked, bare⟩

/-! ### The tree -/

/-- What batches of edits, applied one after another, make of a tree. -/
def patched (root : Support.Paths.Path) (faults : Nat → Fault) (batches : List (List ProposedEdit))
    (disk : DiskState) : DiskState :=
  batches.foldl (fun disk edits => finalState (PatchApplier.apply root faults edits disk)) disk

def Patches (root : Support.Paths.Path) (faults : Nat → Fault) (w w' : World) : Prop :=
  ∃ batches, w'.disk = patched root faults batches w.disk

theorem patches_framed (root : Support.Paths.Path) (faults : Nat → Fault) (told : Json → Prop) :
    Framed (Patches root faults) told where
  trans a b c := by
    intro ⟨first, one⟩ ⟨second, two⟩
    refine ⟨first ++ second, ?_⟩
    unfold patched at one two ⊢
    rw [two, one, List.foldl_append]
  aside w w' disk _ := ⟨[], disk⟩
  emit _ _ _ := ⟨[], rfl⟩

theorem applyEdits_patches (env : Environment) (root : Support.Paths.Path) (edits : List ProposedEdit) :
    Keeps (Patches root env.faults) (applyEdits env root edits) := by
  intro w
  have batch : (finalState (applyEdits env root edits w)).disk = patched root env.faults [edits] w.disk := by
    unfold applyEdits patched
    rw [List.foldl_cons, List.foldl_nil]
    cases PatchApplier.apply root env.faults edits w.disk <;> rfl
  apply Runs.intro
  · intro outcome w' result
    rw [result] at batch
    exact ⟨[edits], batch⟩
  · intro e w' result
    rw [result] at batch
    exact ⟨[edits], batch⟩

section
variable {relation : World → World → Prop} {told : Json → Prop} (framed : Framed relation told)
include framed

theorem available_framed (env : Environment) (config : OllamaClient.OllamaConfig) :
    Keeps relation (isModelAvailable env config) := fun w => framed.aside w _ rfl rfl

theorem researchMode_framed (research : ∀ e, Emitted e → told e) :
    Keeps relation (researchMode host args) := by
  have inner : Framed relation Emitted :=
    ⟨framed.trans, framed.aside, fun w e shown => framed.emit w e (research e shown)⟩
  exact framed.bind (available_framed framed _ _) fun _ => research_framed inner _ _ _

theorem editMode_framed (edit : ∀ e, EditEmitted e → told e)
    (applies : args.applyEdits = true → ∀ edits,
      Keeps relation (applyEdits (environment host args) (editEngine args).root edits)) :
    Keeps relation (editMode host args) := by
  have inner : Framed relation EditEmitted :=
    ⟨framed.trans, framed.aside, fun w e shown => framed.emit w e (edit e shown)⟩
  exact framed.bind (available_framed framed _ _) fun _ => edit_framed inner applies _

end

theorem keeps_final {α : Type} {relation : World → World → Prop} {program : Prog α}
    (keeps : Keeps relation program) (w : World) : relation w (finalState (program w)) := (keeps w).final

/-- The files that the program opens for itself, and the directories that it makes for the log file. -/
def ownPlaces (host : Host) (args : Arguments) (fs : Disk.FileSystem) : List Support.Paths.Loc :=
  (openLog host args fs).places ++ (openEvents host args (openLog host args fs).fs).places

theorem openLog_apart (host : Host) (args : Arguments) (fs : Disk.FileSystem) :
    Apart (openLog host args fs).places fs (openLog host args fs).fs := by
  unfold openLog
  split_ifs
  · exact .refl _ fs
  · exact initLogging_apart fs _ _ _

theorem openEvents_apart (host : Host) (args : Arguments) (fs : Disk.FileSystem) :
    Apart (openEvents host args fs).places fs (openEvents host args fs).fs := by
  unfold openEvents
  split_ifs
  · exact .refl _ fs
  · exact openTruncated_apart fs _

theorem events_place {args : Arguments} {fs : Disk.FileSystem} {file : Support.Paths.Loc}
    (opened : (openEvents host args fs).file = some file) : file ∈ (openEvents host args fs).places := by
  unfold openEvents at opened ⊢
  split_ifs at opened ⊢
  exact openTruncated_file opened

theorem stored_apart {events : Opened} {places : List Support.Paths.Loc}
    (listed : ∀ file, events.file = some file → file ∈ places) (written : Option Bytes) (fs : Disk.FileSystem) :
    Apart places fs (stored events written fs) := by
  unfold stored
  split
  · rename_i file bytes opened
    split
    · rename_i content readable there
      intro loc outside
      cases file with
      | nil => cases there
      | cons n up =>
        obtain ⟨_, kinds⟩ := @Disk.FileSystem.kind_writeFile _ _ _ bytes
          (Disk.FileSystem.kind_parent (by rw [there]; exact Option.some_ne_none _))
          (show fs.Vacant (n :: up) by simp [Disk.FileSystem.Vacant, there])
        rw [kinds, if_neg]
        rintro rfl
        exact outside (listed _ opened)
    · exact .refl _ fs
  · exact .refl _ fs

/-- Nothing in the tree has changed but the files that the program opens for itself, unless a task, a codebase
and `--apply` were given: then batches of edits have been applied below the codebase, once these files were open,
and nothing else has happened to it. -/
def Careful (host : Host) (argv : List Bytes) (w : World) (outcome : Outcome) : Prop :=
  outcome.world.disk = w.disk ∨ ∃ args, parseArguments argv = .ok args ∧
    (Apart (ownPlaces host args w.disk.fs) w.disk.fs outcome.world.disk.fs ∨
      args.serveMode = false ∧ args.codebasePath ≠ [] ∧ ascii "--task" ∈ argv ∧ ascii "--apply" ∈ argv ∧
        ∃ batches begun, Apart (ownPlaces host args w.disk.fs) w.disk.fs begun.fs ∧
          Apart (ownPlaces host args w.disk.fs)
            (patched (Support.Paths.ofBytes args.codebasePath) (environment host args).faults batches begun).fs
            outcome.world.disk.fs)

section
variable {α : Type} {args : Arguments} {code : α → Nat} {printed : α → Bytes} {mode : Prog α}

theorem run_apart (host : Host) (args : Arguments) (code : α → Nat) (printed : α → Bytes) (mode : Prog α)
    (w : World) :
    ∃ begun after, begun = entered (onTree w (openLog host args w.disk.fs).fs)
        (openEvents host args (openLog host args w.disk.fs).fs).fs ∧ after = finalState (mode begun) ∧
      Apart (ownPlaces host args w.disk.fs) w.disk.fs begun.disk.fs ∧
      Apart (ownPlaces host args w.disk.fs) after.disk.fs
        (run host args code printed mode (openLog host args w.disk.fs)
          (onTree w (openLog host args w.disk.fs).fs)).world.disk.fs := by
  refine ⟨_, _, rfl, rfl, (openLog_apart host args _).trans (openEvents_apart host args _), ?_⟩
  exact stored_apart (fun file opened => List.mem_append_right _ (events_place opened)) _ _

end

/-- Whatever the command line is, whatever the model replies and however the program ends. -/
theorem main_spares (host : Host) (argv : List Bytes) (w : World) : Careful host argv w (main host argv w) := by
  apply main_rule host argv w
  · intro ended
    exact .inl rfl
  · intro args ended parsed
    exact .inr ⟨args, parsed, .inl ((openLog_apart host args _).mono (List.subset_append_left _ _))⟩
  · intro args edits
    obtain ⟨begun, after, -, ran, opened, ends⟩ := run_apart host args
      (fun result : EditEngine.EditRunResult => if result.anyEdits then 0 else 2) (printedEdits args.applyEdits)
      (editMode host args) w
    refine .inr ⟨args, edits.parsed, ?_⟩
    cases applied : args.applyEdits with
    | false =>
      have dry : args.applyEdits = true → ∀ edits, Keeps Spares
          (applyEdits (environment host args) (editEngine args).root edits) := by
        rw [applied]
        exact fun impossible => nomatch impossible
      have same : after.disk = begun.disk := by
        rw [ran]
        exact keeps_final (editMode_framed (spares_framed fun _ => True) (fun _ _ => trivial) dry) begun
      rw [same] at ends
      exact .inl fun loc outside => (ends loc outside).trans (opened loc outside)
    | true =>
      have patches : Keeps (Patches (Support.Paths.ofBytes args.codebasePath) (environment host args).faults)
          (editMode host args) :=
        editMode_framed (patches_framed _ _ fun _ => True) (fun _ _ => trivial) fun _ => applyEdits_patches _ _
      obtain ⟨batches, disk⟩ := keeps_final patches begun
      rw [← ran] at disk
      rw [disk] at ends
      exact .inr ⟨edits.serves, edits.codebase, task_given edits.parsed edits.asked,
        apply_given edits.parsed applied, batches, begun.disk, opened, ends⟩
  · intro args researches
    obtain ⟨begun, after, -, ran, opened, ends⟩ := run_apart host args
      (fun result : ResearchEngine.ResearchResult => if result.answered then 0 else 2) printedResearch
      (researchMode host args) w
    have same : after.disk = begun.disk := by
      rw [ran]
      exact keeps_final (researchMode_framed (spares_framed fun _ => True) fun _ _ => trivial) begun
    rw [same] at ends
    exact .inr ⟨args, researches.parsed, .inl fun loc outside => (ends loc outside).trans (opened loc outside)⟩

/-- What is in the events file is the events of the run, as far as they could be written. -/
def Files (host : Host) (outcome : Outcome) : Prop :=
  ∀ bytes, outcome.file = some bytes →
    (∃ n, bytes = (eventsFile host.dump outcome.world.events).take n) ∧
      ∀ e ∈ outcome.world.events, Emitted e ∨ EditEmitted e

theorem run_files {α : Type} {mode : Prog α} (code : α → Nat) (printed : α → Bytes) (log : Opened)
    (tells : Keeps (Tells fun e => Emitted e ∨ EditEmitted e) mode) :
    Files host (run host args code printed mode log w) := by
  have emitted := emits_of_tells tells (entered w (openEvents host args w.disk.fs).fs)
  intro bytes wrote
  refine ⟨?_, emitted⟩
  unfold run written at wrote
  dsimp only at wrote
  split at wrote
  · rename_i file room _ _
    split_ifs at wrote
    exact ⟨room, (Option.some.inj wrote).symm⟩
  · cases wrote

theorem main_files (host : Host) (argv : List Bytes) (w : World) : Files host (main host argv w) := by
  apply main_rule host argv w
  · intro ended bytes impossible
    cases impossible
  · intro args ended _ bytes impossible
    cases impossible
  · intro args _
    exact run_files _ _ _ (editMode_framed (tells_framed _) (fun _ => .inr) fun _ => applies_tells _ _ _)
  · intro args _
    exact run_files _ _ _ (researchMode_framed (tells_framed _) fun _ => .inl)

variable {t : Terminal} {parser : Parser}

/-- `replay_demo` survives every events file that `cppcoder` leaves behind: of a research or an edit run, whether
it returned or died of an exception, and however much of it could be written. -/
theorem file_survives (host : Host) (argv : List Bytes) (w : World) {bytes : Bytes}
    (wrote : (main host argv w).file = some bytes)
    (each : ∀ e ∈ (main host argv w).world.events, Dumped parser host.dump e) (path : Bytes) (step : Bool) :
    ∃ n, bytes = (eventsFile host.dump (main host argv w).world.events).take n ∧
      Replayed t parser host.dump (main host argv w).world.events path step n := by
  obtain ⟨⟨n, cut⟩, emitted⟩ := main_files host argv w bytes wrote
  refine ⟨n, cut, file_replayed each (fun e member => ?_) (fun e member => ?_) path step n⟩
  · obtain research | edit := emitted e member
    · exact research.object
    · exact edit.object
  · obtain research | edit := emitted e member
    · exact emitted_renders t research
    · exact edit_renders t edit

/-! The run that answers, with an events file of so many bytes. -/

def cacheHost (room : Nat) : Host where
  server _ _ := helpful cacheParser 1
  dump := compact
  room _ := some room
  directories := 0
  defaultWebRoot := []

def cacheLine : List Bytes :=
  [ascii "--events-file", ascii "run.jsonl", ascii "--codebase", ascii "/r", ascii "--question", asking]

theorem cache_dumped {events : List Json} (checks : events.all (checked cacheEntries compact) = true) :
    ∀ e ∈ events, Dumped cacheParser compact e := by
  intro e member
  exact dumped_of_checked (List.all_eq_true.1 checks e member)

theorem file_survives_cache : ∃ bytes, (main (cacheHost 500) cacheLine cacheWorld).file = some bytes ∧
    ∃ n, bytes = (eventsFile compact (main (cacheHost 500) cacheLine cacheWorld).world.events).take n ∧
      Replayed ⟨true, fun _ => ascii "0"⟩ cacheParser compact
        (main (cacheHost 500) cacheLine cacheWorld).world.events (ascii "run.jsonl") true n := by
  have ran : (main (cacheHost 500) cacheLine cacheWorld).file.isSome = true ∧
      (main (cacheHost 500) cacheLine cacheWorld).world.events.all (checked cacheEntries compact) = true := by
    decide +kernel
  obtain ⟨bytes, wrote⟩ := Option.isSome_iff_exists.1 ran.1
  exact ⟨bytes, wrote, file_survives (cacheHost 500) cacheLine cacheWorld wrote (cache_dumped ran.2)
    (ascii "run.jsonl") true⟩

/-! ### The report of a research run -/

/-- What `replay_demo` prints for an answer. -/
def foundText (t : Terminal) (answer : Bytes) : Bytes :=
  ascii "\n" ++ t.code kBold ++ t.code kGreen ++ ascii "ANSWER FOUND" ++ t.code kReset ++ ascii "\n  " ++
    answer ++ ascii "\n"

def doneText (t : Terminal) (result : ResearchEngine.ResearchResult) : Bytes :=
  (ascii "\n" ++ t.code kBold ++ (if result.answered then t.code kGreen else t.code kRed) ++ ascii "DONE" ++
    t.code kReset ++ ascii "  " ++ (if result.answered then ascii "answered" else ascii "no answer") ++
    t.code kDim ++ ascii "  (") ++ (ChatHandlers.toText ((result.iterationsRun : Int).bmod (2 ^ 32)) ++
  (ascii " iteration(s), " ++ (t.seconds (result.wallClock.bmod (2 ^ 64)) ++ (ascii "s)  reason: " ++
  (result.terminationReason ++ (t.code kReset ++ ascii "\n\n"))))))

theorem found_prints (answer : Bytes) :
    Prints (renderEvent t (event "answer_found" [("answer", .str answer)])) (foundText t answer) := by
  apply renderEvent_branch rfl rfl
  unfold renderFound
  exact prints_value rfl (prints_print _)

theorem complete_prints (result : ResearchEngine.ResearchResult) :
    Prints (renderEvent t (ResearchEngine.complete result)) (doneText t result) := by
  apply renderEvent_branch rfl rfl
  unfold renderComplete
  exact prints_value rfl ((prints_print _).bind (prints_value rfl ((prints_print _).bind ((prints_print _).bind
    (prints_value rfl ((prints_print _).bind ((prints_print _).bind (prints_value rfl
      ((prints_print _).bind (prints_print _))))))))))

theorem prints_unique {program : Out Unit} {one two : Bytes} (first : Prints program one)
    (second : Prints program two) : one = two := by
  have same := (first []).symm.trans (second [])
  simpa using same

theorem lines_unique {events : List Json} {one two : List Bytes} (first : Lines t events one)
    (second : Lines t events two) : one = two := by
  have single : Relator.RightUnique fun e line => Prints (renderEvent t e) line :=
    fun _ _ _ one two => prints_unique one two
  exact single.forall₂ first second

theorem lines_exist {events : List Json} (renders : ∀ e ∈ events, Renders t e) : ∃ lines, Lines t events lines := by
  induction events with
  | nil => exact ⟨[], .nil⟩
  | cons e rest ih =>
    obtain ⟨line, rendered⟩ := renders e List.mem_cons_self
    obtain ⟨lines, each⟩ := ih fun f member => renders f (List.mem_cons_of_mem _ member)
    exact ⟨line :: lines, .cons (rendered e (.refl e)) each⟩

/-- What `replay_demo` prints last. -/
def lastLines (t : Terminal) (result : ResearchEngine.ResearchResult) : List Bytes :=
  (if result.answered then [foundText t result.answer] else []) ++ [doneText t result]

theorem tale_prints {asked : Bytes} {events : List Json} {result : ResearchEngine.ResearchResult}
    (tale : Tale parser asked events result) (renders : ∀ e ∈ events, Renders t e) :
    ∃ front, Lines t events (front ++ lastLines t result) := by
  obtain ⟨keywords, turns, split, -⟩ := ViewerLogs.tale_split tale
  have before : ∀ e ∈ openingEvents asked keywords ++ turns, Renders t e := by
    intro e member
    apply renders
    rw [split]
    exact List.mem_append_left _ (List.mem_append_left _ member)
  obtain ⟨front, opened⟩ := lines_exist before
  refine ⟨front, ?_⟩
  have answered : Lines t (answerEvents result) (if result.answered then [foundText t result.answer] else []) := by
    unfold answerEvents
    split_ifs
    · exact .cons (found_prints result.answer) .nil
    · exact .nil
  rw [split, List.append_assoc]
  exact List.rel_append opened (List.rel_append answered (.cons (complete_prints result) .nil))

theorem research_main (researches : Researches argv args) {code : Nat} {printed : Bytes}
    (exited : (main host argv w).ended = .exited code printed) :
    ∃ begun result w', begun.events = [] ∧ researchMode host args begun = .ok result w' ∧
      code = (if result.answered then 0 else 2) ∧ printed = printedResearch result ∧
      (main host argv w).world.events = w'.events := by
  have runs : (main host argv w).ended = .aborted ∨ main host argv w =
      researched host args (openLog host args w.disk.fs) (onTree w (openLog host args w.disk.fs).fs) := by
    unfold main
    rw [researches.parsed]
    dsimp only
    split_ifs
    · exact .inl rfl
    · right
      unfold serveOrRun
      rw [researches.serves, if_neg Bool.false_ne_true, if_neg (not_not.2 researches.idle),
        if_neg (not_or.2 ⟨researches.asked, researches.codebase⟩)]
      rfl
  obtain aborted | same := runs
  · rw [exited] at aborted
    cases aborted
  · rw [same] at exited ⊢
    unfold researched run at exited ⊢
    dsimp only at exited ⊢
    cases finished : researchMode host args (entered (onTree w (openLog host args w.disk.fs).fs)
        (openEvents host args (onTree w (openLog host args w.disk.fs).fs).disk.fs).fs) with
    | error e w' =>
      rw [finished] at exited
      cases exited
    | ok result w' =>
      rw [finished] at exited
      cases exited
      exact ⟨_, result, w', rfl, finished, rfl, rfl, rfl⟩

/-- The exit code, what is printed and what `replay_demo` makes of the events file are about one result: what was
answered, in how many iterations, how long it took and why it ended. -/
def Consistent (t : Terminal) (parser : Parser) (path : Bytes) (step : Bool) (outcome : Outcome) (code : Nat)
    (printed : Bytes) : Prop :=
  ∃ result front, code = (if result.answered then 0 else 2) ∧ printed = printedResearch result ∧
    Lines t outcome.world.events (front ++ lastLines t result) ∧
    replay t parser path step outcome.file = .code 0 (header t path step outcome.world.events.length ++
      (prompt t step).intercalate (front ++ lastLines t result))

/-- Both programs report the same of every research run whose events file could be written. -/
theorem exit_agrees (host : Host) (argv : List Bytes) (w : World) (researches : Researches argv args)
    {code : Nat} {printed : Bytes} (exited : (main host argv w).ended = .exited code printed)
    (each : ∀ e ∈ (main host argv w).world.events, Dumped parser host.dump e)
    (wrote : (main host argv w).file = some (eventsFile host.dump (main host argv w).world.events))
    (path : Bytes) (step : Bool) : Consistent t parser path step (main host argv w) code printed := by
  unfold Consistent
  obtain ⟨begun, result, w', fresh, returned, coded, shown, events⟩ := research_main researches exited
  have asked : Runs (researchMode host args) { begun with events := [] }
      (fun result w' => Tale (environment host args).parser args.question w'.events result) fun _ _ => True :=
    (research_tale (researchEngine args) (environment host args) args.question
      { begun with calls := begun.calls + 1 }).imp (fun _ _ tale => tale) fun _ _ _ => trivial
  have same : begun = { begun with events := [] } := by rw [← fresh]
  rw [same] at returned
  have tale := asked.ok returned
  have tells : Keeps (Tells Emitted) (researchMode host args) :=
    researchMode_framed (tells_framed Emitted) fun _ => id
  have emitted := emits_of_tells tells begun
  rw [returned] at emitted
  have renders : ∀ e ∈ w'.events, Renders t e := fun e member => emitted_renders t (emitted e member)
  obtain ⟨front, lines⟩ := tale_prints tale renders
  rw [events] at each wrote ⊢
  refine ⟨result, front, coded, shown, lines, ?_⟩
  obtain ⟨m, texts, short, -, most, printed, replayed⟩ := file_replayed each
    (fun e member => (emitted e member).object) renders path step (eventsFile host.dump w'.events).length
  have all : m = w'.events.length := by
    apply Nat.le_antisymm short
    apply most _ (Nat.le_refl _)
    rw [List.take_length]
  have some : w'.events ≠ [] := by
    obtain ⟨keywords, turns, split, -⟩ := ViewerLogs.tale_split tale
    rw [split]
    simp
  rw [all, List.take_length] at printed replayed
  rw [if_neg (by simpa using some)] at replayed
  rw [wrote, replayed, lines_unique printed lines]

def Ended.exits (code : Nat) : Ended → Bool
  | .exited other _ => other == code
  | _ => false

/-- The run that answers: its code is 0. -/
theorem exit_agrees_cache : ∃ printed,
    (main (cacheHost 2000) cacheLine cacheWorld).ended = .exited 0 printed ∧
      Consistent ⟨true, fun _ => ascii "0"⟩ cacheParser (ascii "run.jsonl") true
        (main (cacheHost 2000) cacheLine cacheWorld) 0 printed := by
  have ran : Ended.exits 0 (main (cacheHost 2000) cacheLine cacheWorld).ended = true ∧
      (main (cacheHost 2000) cacheLine cacheWorld).file =
        some (eventsFile compact (main (cacheHost 2000) cacheLine cacheWorld).world.events) ∧
      (main (cacheHost 2000) cacheLine cacheWorld).world.events.all (checked cacheEntries compact) = true := by
    decide +kernel
  obtain ⟨exits, wrote, checks⟩ := ran
  cases ended : (main (cacheHost 2000) cacheLine cacheWorld).ended with
  | exited code printed =>
    rw [ended] at exits
    obtain rfl : code = 0 := beq_iff_eq.1 exits
    have researches : Researches cacheLine (settled (last (given (lookUp options) cacheLine))) :=
      ⟨rfl, rfl, rfl, by decide, by decide⟩
    exact ⟨printed, rfl, exit_agrees (cacheHost 2000) cacheLine cacheWorld researches ended
      (cache_dumped checks) wrote (ascii "run.jsonl") true⟩
  | aborted =>
    rw [ended] at exits
    cases exits
  | serving config =>
    rw [ended] at exits
    cases exits

end CppCoder.MainRuns
