import CppCoder.Exploration
import CppCoder.Merging
import CppCoder.Samples

/-! How often a run investigates an area. A repeatable task is queued under one name and investigates
others; only the first task of a run is repeatable. -/

namespace CppCoder.Revisits
open Support Utf8 JsonValue Program CppCoder.Types TaskQueue Session Reply Agent EngineLoop
  EngineRuns Exploration

def investigated (trace : List Act) : List (Task × Bytes) :=
  trace.filterMap fun act => match act with
    | .investigating task area => some (task, area)
    | _ => none

def expand (task : Task) : List (Task × Bytes) := (areas task).map (task, ·)

/-- No task but the first is about an area that the first one went through. -/
def SeedAreasLeft (trace : List Act) : Prop :=
  ∀ seed, seedOf trace = some seed → ∀ task ∈ startedTasks trace, task ≠ seed →
    task.targetArea ∉ seed.repeatTargets

/-- The tasks of a run: its first one, and those read from replies. -/
def Known (seed task : Task) : Prop := task = seed ∨ Direction task

structure Visiting (seed : Task) (queue : Queue) (trace : List Act) : Prop where
  waiting : ∀ task ∈ queue.queue, Known seed task
  started : ∀ task ∈ startedTasks trace, Known seed task
  whole : investigated trace = (startedTasks trace).flatMap expand

/-- The record of a run at any point: only the first task may have been cut short. -/
structure Visited (seed : Task) (trace : List Act) : Prop where
  started : ∀ task ∈ startedTasks trace, Known seed task
  whole : investigated trace = (startedTasks trace).flatMap expand ∨
    startedTasks trace = [seed] ∧ investigated trace <+: expand seed

theorem areas_direction {task : Task} (direction : Direction task) : areas task = [task.targetArea] :=
  if_pos (.inl direction.single)

theorem direction_child {task dir : Task} (valid : Valid task.id) (direction : Direction dir) :
    Direction (child task dir) :=
  ⟨⟨direction.id, direction.targetArea, direction.researchGoal, direction.successCriteria, valid⟩,
    direction.single, direction.targets⟩

theorem expand_areas (task : Task) : (expand task).map Prod.snd = areas task := by
  unfold expand
  rw [List.map_map]
  exact List.map_id _

theorem expand_directions {tasks : List Task} (single : ∀ task ∈ tasks, Direction task) :
    (tasks.flatMap expand).map Prod.snd = tasks.map Task.targetArea := by
  rw [List.map_flatMap]
  induction tasks with
  | nil => rfl
  | cons task rest ih =>
    rw [List.flatMap_cons, expand_areas, areas_direction (single task List.mem_cons_self),
      ih fun other member => single other (List.mem_cons_of_mem _ member)]
    rfl

theorem distinct_iff {final : Reading} {seed : Task} {trace : List Act} (searched : SearchedFrom final seed trace)
    (visited : Visited seed trace) (repeats : areas seed = seed.repeatTargets)
    (distinct : seed.repeatTargets.Nodup) :
    ((investigated trace).map Prod.snd).Nodup ↔ SeedAreasLeft trace := by
  unfold SeedAreasLeft
  rw [searched.first]
  simp only [Option.some.injEq, forall_eq']
  rcases searched.cases with none | ⟨rest, started, apart⟩
  · rcases visited.whole with whole | ⟨one, -⟩
    · rw [whole, none]
      simp
    · rw [none] at one
      cases one
  · obtain ⟨fresh, others⟩ := List.nodup_cons.1 apart
    have follows : ∀ task ∈ rest, Direction task := by
      intro task member
      apply (visited.started task (started ▸ List.mem_cons_of_mem _ member)).resolve_left
      rintro rfl
      exact fresh (List.mem_map_of_mem member)
    have later : ∀ task ∈ rest, task ≠ seed := by
      rintro task member rfl
      exact fresh (List.mem_map_of_mem member)
    rcases visited.whole with whole | ⟨one, cut⟩
    · rw [whole, started, List.flatMap_cons, List.map_append, expand_areas, repeats,
        expand_directions follows,
        List.nodup_append]
      constructor
      · rintro ⟨-, -, disjoint⟩ task member other again
        have there := (List.mem_cons.1 member).resolve_left other
        exact disjoint _ again _ (List.mem_map_of_mem there) rfl
      · intro left
        refine ⟨distinct, others, fun area there other member => ?_⟩
        obtain ⟨task, among, rfl⟩ := List.mem_map.1 member
        rintro rfl
        exact left task (List.mem_cons_of_mem _ among) (later task among) there
    · have areas := cut.map Prod.snd
      rw [expand_areas, repeats] at areas
      refine ⟨fun _ task member other => ?_, fun _ => distinct.sublist areas.sublist⟩
      rw [one] at member
      exact absurd (List.mem_singleton.1 member) other

/-! ### One task -/

def Beside : Act → Prop
  | .started _ => False
  | .investigating _ _ => False
  | _ => True

theorem beside_of_applying (act : Act) (applying : Applying act) : Beside act := by
  cases act <;> first | exact trivial | exact applying

theorem investigated_append (trace acts : List Act) :
    investigated (trace ++ acts) = investigated trace ++ investigated acts := List.filterMap_append

theorem beside_nothing {acts : List Act} (beside : ∀ act ∈ acts, Beside act) :
    startedTasks acts = [] ∧ investigated acts = [] := by
  refine ⟨List.filterMap_eq_nil_iff.2 fun act member => ?_, List.filterMap_eq_nil_iff.2
    fun act member => ?_⟩
  all_goals
    have holds := beside act member
    cases act <;> first | rfl | cases holds

theorem Visiting.beside {seed : Task} {queue : Queue} {w w' : World}
    (visiting : Visiting seed queue w.trace)
    (leaves : Leaves Beside w w') : Visiting seed queue w'.trace := by
  obtain ⟨acts, grown, beside⟩ := leaves
  obtain ⟨started, none⟩ := beside_nothing beside
  rw [grown]
  refine ⟨visiting.waiting, ?_, ?_⟩
  · rw [startedTasks_append, started, List.append_nil]
    exact visiting.started
  · rw [investigated_append, none, startedTasks_append, started, List.append_nil, List.append_nil]
    exact visiting.whole

variable {φ ρ : Type} {final : Reading}

def Expanded (task : Task) (w w' : World) : Prop :=
  ∃ inner, w'.trace = w.trace ++ inner ∧ startedTasks inner = [] ∧ investigated inner = expand task

def Begun (task : Task) (w w' : World) : Prop :=
  ∃ inner, w'.trace = w.trace ++ inner ∧ startedTasks inner = [] ∧
    investigated inner <+: expand task ∧ investigated inner ≠ []

theorem areas_ne_nil (task : Task) : areas task ≠ [] := by
  unfold areas
  split_ifs with single
  · exact List.cons_ne_nil _ _
  · exact fun none => single (.inr none)

theorem Expanded.begun {task : Task} {w w' : World} (expanded : Expanded task w w') : Begun task w w' := by
  obtain ⟨inner, grown, started, whole⟩ := expanded
  refine ⟨inner, grown, started, whole ▸ List.prefix_refl _, ?_⟩
  rw [whole]
  exact fun none => areas_ne_nil task (List.map_eq_nil_iff.1 none)

theorem Expanded.beside {task : Task} {w w' w'' : World} (expanded : Expanded task w w')
    (leaves : Leaves Beside w' w'') : Expanded task w w'' := by
  obtain ⟨inner, grown, started, whole⟩ := expanded
  obtain ⟨acts, more, beside⟩ := leaves
  obtain ⟨none, nothing⟩ := beside_nothing beside
  refine ⟨inner ++ acts, by rw [more, grown, List.append_assoc], ?_, ?_⟩
  · rw [startedTasks_append, started, none]
    rfl
  · rw [investigated_append, whole, nothing, List.append_nil]

/-- An investigation goes through the areas of its task, all of them if it returns, and returns tasks for
one area each. -/
structure Follows (steps : Steps φ ρ) (final : Reading) : Prop extends Reports steps final where
  expands : ∀ task w, Runs (steps.investigate task) w
    (fun result w' => (∀ d ∈ steps.followUps result, Direction d) ∧ Expanded task w w')
    fun _ w' => Begun task w w'

theorem Visiting.visited {seed : Task} {queue : Queue} {trace : List Act}
    (visiting : Visiting seed queue trace) :
    Visited seed trace := ⟨visiting.started, .inl visiting.whole⟩

theorem prefix_direction {task : Task} (direction : Direction task) {pairs : List (Task × Bytes)}
    (begun : pairs <+: expand task) (some : pairs ≠ []) : pairs = expand task := by
  have single : expand task = [(task, task.targetArea)] := by
    unfold expand
    rw [areas_direction direction]
    rfl
  rw [single] at begun ⊢
  exact (List.prefix_cons_iff.1 begun).elim (fun none => absurd none some) fun ⟨rest, same, nothing⟩ => by
    rw [same, List.prefix_nil.1 nothing]

theorem pushes_visiting {seed task : Task} (valid : Valid task.id) {dirs : List Task}
    (directions : ∀ d ∈ dirs, Direction d) {queue : Queue} {w : World}
    (visiting : Visiting seed queue w.trace) :
    Runs (dirs.foldlM (pushDirection task) queue) w
      (fun (queue' : Queue) (w' : World) => Visiting seed queue' w'.trace)
      fun _ w' => Visited seed w'.trace := by
  refine Runs.foldlM (fun _ (queue' : Queue) (w' : World) => Visiting seed queue' w'.trace) dirs ?_ visiting
  intro read dir rest queue' w' split now
  have direction := directions dir (by simp [← split])
  have beside : Keeps (Leaves Beside) (pushDirection task queue' dir) :=
    keeps_pushDirection task queue' dir fun _ => trivial
  apply ((pushDirection_queue task queue' dir w').and (beside w')).imp
  · rintro queue'' w'' ⟨rfl, leaves⟩
    have after := now.beside leaves
    refine ⟨fun other member => ?_, after.started, after.whole⟩
    rcases push_queue queue' _ other member with old | new
    · exact now.waiting other old
    · rw [new]
      exact .inr (direction_child valid direction)
  · intro _ w'' leaves
    exact (now.beside leaves.2).visited

theorem process_visiting {steps : Steps φ ρ} (follows : Follows steps final) {seed task : Task} {queue : Queue}
    {progress : Progress ρ} {w : World} (clean : Valid seed.id ∧ Valid seed.targetArea)
    (next : progress.queue.pop = some (task, queue)) (first : task = seed → startedTasks w.trace = [])
    (visiting : Visiting seed progress.queue w.trace) :
    Runs (steps.process task queue progress) w (fun progress' w' => Visiting seed progress'.queue w'.trace)
      fun _ w' => Visited seed w'.trace := by
  have waiting := pop_queue next ▸ visiting.waiting
  have known : Known seed task := waiting task List.mem_cons_self
  have valid : Valid task.id ∧ Valid task.targetArea := by
    rcases known with rfl | direction
    · exact clean
    · exact ⟨direction.id, direction.targetArea⟩
  have started : ∀ trace, startedTasks (w.trace ++ .started task :: trace) =
      startedTasks w.trace ++ task :: startedTasks trace := fun trace => startedTasks_append _ _
  have areas : ∀ trace, investigated (w.trace ++ .started task :: trace) =
      investigated w.trace ++ investigated trace := fun trace => investigated_append _ _
  have all : ∀ other ∈ startedTasks w.trace ++ [task], Known seed other :=
    List.forall_mem_append.2 ⟨visiting.started, by simpa using known⟩
  have dumps : (taskStarted task).dumpable = true := by
    rw [taskStarted, event_dumpable]
    simp [valid]
  apply steps.process_rule (fun dirty => absurd dumps dirty)
  apply (follows.expands task _).imp
  rotate_left
  · rintro _ w1 ⟨inner, grown, none, begun, some⟩
    rw [grown, List.append_assoc, List.singleton_append]
    refine ⟨?_, ?_⟩
    · rw [started, none]
      exact all
    rw [started, areas, none, visiting.whole]
    rcases known with rfl | direction
    · right
      rw [first rfl]
      exact ⟨rfl, begun⟩
    · left
      rw [prefix_direction direction begun some]
      simp
  · rintro result w1 ⟨directions, inner, grown, none, expanded⟩
    have now : Visiting seed queue w1.trace := by
      rw [grown, List.append_assoc, List.singleton_append]
      refine ⟨fun other member => waiting other (List.mem_cons_of_mem _ member), ?_, ?_⟩
      · rw [started, none]
        exact all
      · rw [started, areas, none, expanded, visiting.whole]
        simp
    have step : Leaves Beside w1
      { w1 with trace := w1.trace ++ [.settled task (steps.followUps result)] } :=
      ⟨[.settled task _], rfl, by simp [Beside]⟩
    have ended := now.beside step
    apply (follows.settle task result _ _).imp _ fun _ w2 leaves =>
      (ended.beside (leaves.mono beside_of_applying)).visited
    intro gathered w2 leaves
    have settled := ended.beside (leaves.mono beside_of_applying)
    have marked : Visiting seed (queue.markVisited task.targetArea) w2.trace :=
      ⟨settled.waiting, settled.started, settled.whole⟩
    exact (pushes_visiting valid.1 directions marked).weaken fun _ _ visiting => visiting

theorem explore_visited {steps : Steps φ ρ} (follows : Follows steps final) {seed : Task} (root : seed.depth = 0)
    (clean : Valid seed.id ∧ Valid seed.targetArea) {env : Environment} {config : EngineConfig}
    {engineStart : Int} (left : Nat)
    {progress : Progress ρ} {w : World} {log : BreadthFirst.Log Task}
    (searching : Searching final seed progress.queue w.trace log)
    (visiting : Visiting seed progress.queue w.trace) :
    Runs (steps.explore env config engineStart left progress) w
      (fun _ w' => SearchedFrom final seed w'.trace ∧ Visited seed w'.trace)
      fun _ w' => SearchedFrom final seed w'.trace ∧ Visited seed w'.trace := by
  refine (steps.explore_runs (fun progress w => (∃ log, Searching final seed progress.queue w.trace log) ∧
    Visiting seed progress.queue w.trace) (fun _ _ _ kept => kept) ?_ left progress w
    ⟨⟨log, searching⟩, visiting⟩).weaken ?_
  · rintro progress w task queue next ⟨⟨log, searching⟩, visiting⟩
    have first : task = seed → startedTasks w.trace = [] := by
      rintro rfl
      have front := searching.explored.order_eq
      have distinct := searching.explored.nodup
      rw [pop_queue next] at front distinct
      rw [searching.recorded.started]
      cases log with
      | nil => rfl
      | cons visit log =>
        cases (List.cons.inj front).1
        simp at distinct
    exact (process_searching follows.toReports root next searching).and
      (process_visiting follows clean next first visiting)
  · rintro ⟨progress', ending⟩ w' ⟨⟨⟨log', recorded, explored, -⟩, visiting⟩, -⟩
    exact ⟨searchedFrom_of recorded explored root (List.prefix_append _ _), visiting.visited⟩

/-! ### The engines -/

theorem subs_acts {role : Role φ} (told : ∀ finding, Beside (role.toAct finding)) (task : Task)
    (subs : List (SubRun φ)) :
    startedTasks (subs.flatMap fun sub => sub.acts role task) = [] ∧
      investigated (subs.flatMap fun sub => sub.acts role task) = (subs.map SubRun.area).map (task, ·) := by
  induction subs with
  | nil => exact ⟨rfl, rfl⟩
  | cons sub rest ih =>
    have last : ∀ act ∈ [.scanned sub.area sub.shown, role.toAct sub.finding], Beside act := by
      simpa using ⟨trivial, told _⟩
    obtain ⟨started, none⟩ := beside_nothing last
    constructor
    · rw [List.flatMap_cons, startedTasks_append, ih.1, List.append_nil]
      exact started
    · rw [List.flatMap_cons, investigated_append, ih.2]
      exact congrArg ((task, sub.area) :: · ++ _) none

theorem execute_expands (role : Role φ) (told : ∀ finding, Beside (role.toAct finding)) (env : Environment)
    (setup : Setup) (task : Task) (w : World) :
    Runs (role.execute env setup task) w
      (fun finding w' => (∃ fs subs, role.Executed env setup task fs subs finding) ∧ Expanded task w w')
      fun _ w' => Begun task w w' := by
  apply (role.execute_runs env setup task w).imp
  · rintro finding w' ⟨subs, executed, adds⟩
    obtain ⟨started, areas⟩ := subs_acts told task subs
    rw [executed.areas] at areas
    exact ⟨⟨_, subs, executed⟩, _, adds.trace, started, areas⟩
  · rintro e w' ⟨-, subs, area, shown, ⟨⟨rest, split⟩, -, -⟩, adds⟩
    obtain ⟨started, areas⟩ := subs_acts told task subs
    refine ⟨_, adds.trace, ?_, ?_, ?_⟩
    · rw [startedTasks_append, started]
      rfl
    · rw [investigated_append, areas]
      unfold expand
      rw [split, List.map_append]
      exact (List.prefix_append_right_inj _).2 ⟨rest.map (task, ·), rfl⟩
    · rw [investigated_append]
      exact List.append_ne_nil_of_right_ne_nil _ (List.cons_ne_nil _ _)

theorem edit_follows (engine : EditEngine.Engine) (env : Environment) :
    Follows (EditEngine.steps engine env) editedDirections where
  toReports := edit_reports engine env
  expands task w := by
    refine Runs.bind ((execute_expands Editor.role (fun _ => trivial) env _ task w).weaken ?_)
    rintro finding w1 ⟨⟨fs, subs, executed⟩, expanded⟩
    refine Runs.bind (runs_emit (fun _ => Runs.pure ⟨fun d followed => ?_, expanded⟩) fun _ =>
      expanded.begun)
    obtain ⟨sub, member, given⟩ := (Merging.merged_of_executed Merging.editor executed).given d
      (mem_followed followed)
    exact (Editor.sub_readable (executed.each sub member)).directions d given

theorem research_follows (engine : ResearchEngine.Engine) (env : Environment) (question : Bytes) :
    Follows (ResearchEngine.steps engine env question) judgedDirections where
  toReports := research_reports engine env question
  expands task w := by
    refine Runs.bind ((execute_expands Worker.role (fun _ => trivial) env _ task w).weaken ?_)
    rintro raw w1 ⟨⟨fs, subs, executed⟩, expanded⟩
    refine Runs.bind (runs_emit (fun _ => Runs.bind ?_) fun _ => expanded.begun)
    apply (Judge.review_runs env engine.client question raw _).imp
    · rintro finding w2 ⟨reply, rfl, adds⟩
      have later : Leaves Beside w1 w2 := ⟨_, adds.trace, by simp [Beside]⟩
      have now := expanded.beside later
      refine Runs.bind (runs_emit (fun _ => Runs.pure ⟨fun d followed => ?_, now⟩) fun _ => now.begun)
      have proposed := (Judge.judged_judgement env.parser raw reply).kept d (mem_followed followed)
      obtain ⟨sub, member, given⟩ := (Merging.merged_of_executed Merging.worker executed).given d proposed
      exact (Worker.sub_readable (executed.each sub member)).directions d given
    · rintro e w2 ⟨-, -, -, adds⟩
      have later : Leaves Beside w1 w2 := ⟨_, adds.trace, by simp⟩
      exact (expanded.beside later).begun

theorem seeded_visited {steps : Steps φ ρ} (follows : Follows steps final) {seed : Task} (root : seed.depth = 0)
    (clean : Valid seed.id ∧ Valid seed.targetArea) (env : Environment) (config : EngineConfig)
    (engineStart : Int) (left : Nat) (gathered : ρ) {w : World} (blank : w.trace = []) :
    Runs (Seeding.queueSeeds [seed]) w (fun queue w' =>
      Runs (steps.explore env config engineStart left { queue, iterations := 0, gathered }) w'
        (fun _ w'' => SearchedFrom final seed w''.trace ∧ Visited seed w''.trace)
        fun _ w'' => SearchedFrom final seed w''.trace ∧ Visited seed w''.trace)
      fun _ w' => SearchedFrom final seed w'.trace ∧ Visited seed w'.trace := by
  have beside : Keeps (Leaves Beside) (Seeding.queueSeeds [seed]) :=
    Keeps.foldlM Leaves.refl Leaves.trans (fun _ _ => keeps_bind (keeps_record trivial) fun _ =>
      keeps_bind (keeps_emit _) fun _ => keeps_pure _) _ _
  have nothing : ∀ w' : World, Leaves Beside w w' → startedTasks w'.trace = [] ∧
      investigated w'.trace = [] := by
    rintro w' ⟨acts, grown, none⟩
    rw [grown, blank, List.nil_append]
    exact beside_nothing none
  apply ((queueSeeds_searching final root blank).and (beside w)).imp
  · rintro queue w' ⟨searching, leaves⟩
    obtain ⟨started, none⟩ := nothing w' leaves
    have front : queue.queue = [seed] := searching.explored.order_eq
    refine explore_visited follows root clean left searching ⟨?_, ?_, ?_⟩
    · intro task member
      rw [front] at member
      exact .inl (List.mem_singleton.1 member)
    · rw [started]
      exact fun _ absent => absurd absent List.not_mem_nil
    · rw [started, none]
      rfl
  · rintro _ w' ⟨found, leaves⟩
    obtain ⟨started, none⟩ := nothing w' leaves
    refine ⟨found, ?_, .inl ?_⟩
    · rw [started]
      exact fun _ absent => absurd absent List.not_mem_nil
    · rw [started, none]
      rfl

/-- What a run investigated is distinct exactly when no follow-up is about an area of its first task. -/
def OnceUnlessSeeded (trace : List Act) : Prop :=
  ((investigated trace).map Prod.snd).Nodup ↔ SeedAreasLeft trace

theorem seeds_once {steps : Steps φ ρ} (follows : Follows steps final) {scanner : CodebaseScanner.Scanner}
    {fs : Support.Disk.FileSystem} {id successCriteria : String} {goal : Bytes}
    {keywords : List Bytes} {seed : Task}
    (seeds : Seeding.seedInitialTasks scanner fs id successCriteria goal keywords = [seed])
    {env : Environment} {config : EngineConfig} {engineStart : Int} (left : Nat) {gathered : ρ} {w : World}
    (blank : w.trace = []) :
    Runs (Seeding.queueSeeds [seed]) w (fun queue w' =>
      Runs (steps.explore env config engineStart left { queue, iterations := 0, gathered }) w'
        (fun _ w'' => OnceUnlessSeeded w''.trace) fun _ w'' => OnceUnlessSeeded w''.trace)
      fun _ w' => OnceUnlessSeeded w'.trace := by
  have shape := seedInitialTasks_seeds seeds
  have once : ∀ trace, SearchedFrom final seed trace ∧ Visited seed trace → OnceUnlessSeeded trace :=
    fun trace found => distinct_iff found.1 found.2 shape.areas.1 shape.areas.2
  refine (seeded_visited follows shape.depth ⟨shape.id, shape.targetArea⟩ env config engineStart
    left gathered
    blank).imp (fun queue w' search => ?_) fun _ w' found => once _ found
  exact search.imp (fun _ w'' found => once _ found) fun _ w'' found => once _ found

/-- In both engines, however a run ends, the areas investigated are pairwise distinct exactly when no
follow-up that was started is about an area of the first task. -/
theorem visits_once_iff (w : World) :
    (∀ engine env question,
      OnceUnlessSeeded (finalState
        (ResearchEngine.research engine env question { w with trace := [] })).trace) ∧
    ∀ engine env taskDescription,
      OnceUnlessSeeded (finalState
          (EditEngine.run engine env taskDescription { w with trace := [] })).trace := by
  have nothing : OnceUnlessSeeded [] := by simp [OnceUnlessSeeded, SeedAreasLeft, investigated, seedOf]
  exact ⟨fun engine env question => research_always engine env question rfl nothing
      fun _ _ _ _ blank _ seeds => seeds_once (research_follows engine env question) seeds _ blank,
    fun engine env taskDescription => @edit_always (fun _ trace => OnceUnlessSeeded trace)
      engine env taskDescription _ rfl nothing
      fun _ _ _ _ blank _ seeds => seeds_once (edit_follows engine env) seeds _ blank⟩

/-! In the codebase of two files, the reply about `a.cpp` names `b.cpp`, which the run goes through
anyway. -/

def againReply : Bytes :=
  ascii "\x7b\"outcome\": \"partial\", \"directions\": [\x7b\"target_area\": \"b.cpp\", " ++
  ascii "\"research_goal\": \"find the cache\"\x7d]\x7d"

def againEnv : Environment where
  parser := .table (OllamaClient.exchanges [(againReply, .obj [(ascii "outcome", .str (ascii "partial")),
    (ascii "directions", .arr [.obj [(ascii "target_area", .str (ascii "b.cpp")),
      (ascii "research_goal", .str (ascii "find the cache"))]])])]) (by decide +kernel)
  http n := if n = 1 then .response 200 (OllamaClient.responseBody againReply) else .failed
  clock _ := 0
  faults _ := .none

def againEngine : ResearchEngine.Engine :=
  ⟨{}, ⟨Support.Paths.ofBytes (ascii "/r"), CodebaseScanner.defaultExtensions⟩, {}⟩

/-- The second file is investigated for the first task and again for the follow-up. -/
theorem area_revisited :
    ¬ ((investigated (finalState (ResearchEngine.research againEngine againEnv (ascii "where is the cache")
      { disk := { fs := Samples.cached } })).trace).map Prod.snd).Nodup := by
  decide +kernel

end CppCoder.Revisits
