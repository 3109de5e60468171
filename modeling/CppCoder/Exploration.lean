import CppCoder.EngineRuns

/-! The order in which the engines start tasks: breadth-first search over areas, with every area
taken once. -/

namespace CppCoder.Exploration
open Support Utf8 JsonValue Program CppCoder.Types BreadthFirst TaskQueue Session Agent
  EngineLoop EngineRuns

def startedTasks (trace : List Act) : List Task :=
  trace.filterMap fun act => match act with
    | .started task => some task
    | _ => none

def addAct : List (Task × List Act) → Act → List (Task × List Act)
  | earlier, .started task => (task, []) :: earlier
  | [], _ => []
  | (task, acts) :: earlier, act => (task, acts ++ [act]) :: earlier

/-- What the acts of a task tell of the directions to follow, once they tell of its final outcome. -/
abbrev Reading := Task → List Act → Option (List Task)

/-- The directions of a finding whose outcome is partial. -/
def judgedDirections : Reading := fun _ acts =>
  acts.findSome? fun act => match act with
    | .reviewed _ _ finding =>
        some (if finding.outcome = .partialWithDirections then finding.suggestedDirections else [])
    | _ => none

def editedFindings (acts : List Act) : List EditFinding :=
  acts.filterMap fun act => match act with
    | .edited finding => some finding
    | _ => none

/-- The finding about a task, from those about its areas. -/
def finalFinding (task : Task) (findings : List EditFinding) : EditFinding :=
  if task.repeatable = false ∨ task.repeatTargets = [] then findings.headD {}
  else (task.repeatTargets.zip findings).foldl (fun merged sub => Editor.mergeSub merged sub.1 sub.2)
    { areaInvestigated := task.targetArea }

def editedDirections : Reading := fun task acts =>
  let findings := editedFindings acts
  if findings.length < (areas task).length then none
  else
    let finding := finalFinding task findings
    some (if finding.outcome = .partialWithDirections then finding.suggestedDirections else [])

def explored (final : Reading) (episode : Task × List Act) : Option (Task × List Task) :=
  (final episode.1 episode.2).map fun directions => (episode.1, directions.map fun d =>
    { d with depth := episode.1.depth + 1, parentId := episode.1.id })

def exploredLog (final : Reading) (trace : List Act) : Log Task :=
  (trace.foldl addAct []).reverse.filterMap (explored final)

def seedOf (trace : List Act) : Option Task :=
  trace.findSome? fun act => match act with
    | .pushed task _ => some task
    | _ => none

/-- The first tasks and then all directions, in the order of processing, each area once. -/
def breadthFirst (final : Reading) (seeds : List Task) (trace : List Act) : List Task :=
  firstOccurrences Task.targetArea (seeds ++ (exploredLog final trace).proposals)

/-- The tasks started are the first ones in breadth-first order, and their depths are their distances
from a seed. -/
structure Searched (final : Reading) (seeds : List Task) (trace : List Act) : Prop where
  order : startedTasks trace <+: breadthFirst final seeds trace
  proposed : ∀ task ∈ startedTasks trace, task ∈ seeds ∨ ∃ visit ∈ exploredLog final trace,
    task ∈ visit.2 ∧ task.depth = visit.1.depth + 1
  depths : (startedTasks trace).Pairwise fun a b => a.depth ≤ b.depth
  shortest : ∀ task ∈ startedTasks trace, ∃ seed ∈ seeds,
    IsLeast {n | Hops Task.targetArea (exploredLog final trace) seed.targetArea n task.targetArea} task.depth

def Whole (final : Reading) (seeds : List Task) (trace : List Act) : Prop :=
  startedTasks trace = breadthFirst final seeds trace

structure SearchedFrom (final : Reading) (seed : Task) (trace : List Act) : Prop
    extends Searched final [seed] trace where
  first : seedOf trace = some seed

def Inner : Act → Prop
  | .started _ => False
  | _ => True

def Silent : Act → Prop
  | .applied _ _ => True
  | .settled _ _ => True
  | .pushed _ _ => True
  | _ => False

theorem inner_of_silent (act : Act) (silent : Silent act) : Inner act := by
  cases act <;> first | exact trivial | exact silent

theorem inner_of_within (act : Act) (within : Within act) : Inner act := by
  cases act <;> first | exact trivial | exact within

theorem silent_of_applying (act : Act) (applying : Applying act) : Silent act := by
  cases act <;> first | exact trivial | exact applying

theorem startedTasks_append (trace acts : List Act) :
    startedTasks (trace ++ acts) = startedTasks trace ++ startedTasks acts := List.filterMap_append

theorem startedTasks_inner {acts : List Act} (inner : ∀ act ∈ acts, Inner act) :
    startedTasks acts = [] := by
  refine List.filterMap_eq_nil_iff.2 fun act member => ?_
  have holds := inner act member
  cases act <;> first | rfl | cases holds

theorem addAct_inner {acts : List Act} (inner : ∀ act ∈ acts, Inner act) (task : Task) (before : List Act)
    (earlier : List (Task × List Act)) :
    acts.foldl addAct ((task, before) :: earlier) = (task, before ++ acts) :: earlier := by
  induction acts generalizing before with
  | nil => rw [List.append_nil]; rfl
  | cons act rest ih =>
    obtain ⟨first, later⟩ := List.forall_mem_cons.1 inner
    have added : addAct ((task, before) :: earlier) act = (task, before ++ [act]) :: earlier := by
      cases act <;> first | rfl | cases first
    rw [List.foldl_cons, added, ih later, List.append_assoc, List.singleton_append]

theorem seedOf_append {trace : List Act} {seed : Task} (first : seedOf trace = some seed)
    (acts : List Act) :
    seedOf (trace ++ acts) = some seed := by
  unfold seedOf at *
  rw [List.findSome?_append, first]
  rfl

variable {final : Reading}

/-- What the record of a run says about the search between two tasks, once a seed was queued. -/
structure Recorded (final : Reading) (seed : Task) (started : List Task) (log : Log Task)
    (trace : List Act) : Prop where
  started : startedTasks trace = started
  log : exploredLog final trace = log
  first : seedOf trace = some seed

structure Underway (final : Reading) (seed task : Task) (acts : List Act) (started : List Task)
    (log : Log Task) (trace : List Act) : Prop where
  started : startedTasks trace = started
  last : ∃ earlier, trace.foldl addAct [] = (task, acts) :: earlier ∧
    earlier.reverse.filterMap (explored final) = log
  first : seedOf trace = some seed

section Records
variable {seed task : Task} {started : List Task} {log : Log Task} {trace acts : List Act}

theorem Recorded.start (recorded : Recorded final seed started log trace) (task : Task) :
    Underway final seed task [] (started ++ [task]) log (trace ++ [.started task]) := by
  refine ⟨?_, ⟨trace.foldl addAct [], ?_, recorded.log⟩, seedOf_append recorded.first _⟩
  · rw [startedTasks_append, recorded.started]
    rfl
  · rw [List.foldl_append]
    rfl

theorem Underway.more (underway : Underway final seed task acts started log trace) {more : List Act}
    (inner : ∀ act ∈ more, Inner act) :
        Underway final seed task (acts ++ more) started log (trace ++ more) := by
  obtain ⟨earlier, last, logged⟩ := underway.last
  refine ⟨?_, ⟨earlier, ?_, logged⟩, seedOf_append underway.first _⟩
  · rw [startedTasks_append, startedTasks_inner inner, List.append_nil, underway.started]
  · rw [List.foldl_append, last, addAct_inner inner]

theorem Underway.recorded (underway : Underway final seed task acts started log trace) :
    Recorded final seed started (log ++ (explored final (task, acts)).toList) trace := by
  obtain ⟨earlier, last, logged⟩ := underway.last
  refine ⟨underway.started, ?_, underway.first⟩
  unfold exploredLog
  rw [last, List.reverse_cons, List.filterMap_append, logged]
  cases result : explored final (task, acts) <;> simp [result]

theorem searchedFrom_of {queue : List Task} (recorded : Recorded final seed started log trace)
    (search : Explored Task.targetArea Task.depth seed log queue) (root : seed.depth = 0)
    (initial : started <+: log.map Prod.fst ++ queue) : SearchedFrom final seed trace := by
  rw [search.order_eq] at initial
  have known : ∀ task ∈ startedTasks trace, task ∈ order Task.targetArea seed log := by
    rw [recorded.started]
    exact fun task member => initial.subset member
  refine ⟨⟨?_, fun task member => ?_, ?_, fun task member => ?_⟩, recorded.first⟩
  · rw [breadthFirst, recorded.started, recorded.log]
    exact initial
  · rw [recorded.log]
    apply (order_proposed (known task member)).imp List.mem_singleton.2
    rintro ⟨visit, visited, proposal⟩
    exact ⟨visit, visited, proposal, search.deeper visit visited task proposal⟩
  · rw [recorded.started]
    exact search.levels.1.sublist initial.sublist
  · rw [recorded.log]
    exact ⟨seed, List.mem_singleton_self _, search.shortest root (known task member)⟩

end Records

/-! ### The loop -/

structure Searching (final : Reading) (seed : Task) (queue : Queue) (trace : List Act) (log : Log Task) :
    Prop where
  recorded : Recorded final seed (log.map Prod.fst) log trace
  explored : Explored Task.targetArea Task.depth seed log queue.queue
  tracks : queue.Tracks (log.map Prod.fst)

variable {φ ρ : Type}

structure Reports (steps : Steps φ ρ) (final : Reading) : Prop extends Quiet steps where
  reports : ∀ task w, Runs (steps.investigate task) w
    (fun result w' => ∃ acts, w'.trace = w.trace ++ acts ∧ (∀ act ∈ acts, Within act) ∧
      final task acts = some (steps.followUps result)) fun _ _ => True
  silent : ∀ task acts more, (∀ act ∈ more, Silent act) → final task (acts ++ more) = final task acts

theorem pushes_tracked {done seen : List Task} {queue : Queue} (tracks : queue.Tracks done)
    (whole : done ++ queue.queue = seen) {holds : World → Prop}
    (kept : ∀ w w', holds w → Leaves Silent w w' → holds w') (task : Task) (dirs : List Task) {w : World}
    (now : holds w) :
    Runs (dirs.foldlM (pushDirection task) queue) w
      (fun queue' w' => (queue'.Tracks done ∧
        queue'.queue = queue.queue ++ fresh Task.targetArea seen (dirs.map (child task))) ∧ holds w')
      fun _ w' => holds w' := by
  refine Runs.foldlM (fun read (queue' : Queue) w' => (queue'.Tracks done ∧
    queue'.queue = queue.queue ++ fresh Task.targetArea seen (read.map (child task))) ∧ holds w') dirs ?_
    ⟨⟨tracks, by simp [fresh]⟩, now⟩
  intro read dir rest queue' w' _ before
  obtain ⟨⟨tracked, waiting⟩, now⟩ := before
  have pushed := tracked.push (child task dir)
  have silent : Keeps (Leaves Silent) (pushDirection task queue' dir) :=
    keeps_pushDirection task queue' dir fun _ => trivial
  apply ((pushDirection_queue task queue' dir w').and (silent w')).imp
  · rintro queue'' w'' ⟨rfl, leaves⟩
    refine ⟨⟨pushed.1, ?_⟩, kept w' w'' now leaves⟩
    have all : done ++ queue'.queue = seen ++ fresh Task.targetArea seen (read.map (child task)) := by
      rw [waiting, ← whole, List.append_assoc]
    rw [pushed.2, all, waiting, List.map_append, List.map_singleton, fresh_append, List.append_assoc]
  · intro _ w'' after
    exact kept w' w'' now after.2

theorem Underway.searchedFrom {seed task : Task} {acts trace : List Act} {log : Log Task}
    {rest : List Task} (underway : Underway final seed task acts (log.map Prod.fst ++ [task]) log trace)
    (search : Explored Task.targetArea Task.depth seed log (task :: rest)) (root : seed.depth = 0) :
    SearchedFrom final seed trace := by
  have recorded := underway.recorded
  unfold Exploration.explored at recorded
  cases told : final task acts with
  | none =>
    simp only [told, Option.map_none, Option.toList_none, List.append_nil] at recorded
    exact searchedFrom_of recorded search root ⟨rest, by simp⟩
  | some directions =>
    simp only [told, Option.map_some, Option.toList_some] at recorded
    have visit := search.visit (directions.map (child task)) (by
      intro dir member
      obtain ⟨d, -, rfl⟩ := List.mem_map.1 member
      rfl)
    refine searchedFrom_of recorded visit root ?_
    rw [List.map_append]
    exact List.prefix_append _ _

theorem process_searching {steps : Steps φ ρ} (reports : Reports steps final) {seed task : Task}
    {queue : Queue} {progress : Progress ρ} {w : World} {log : Log Task} (root : seed.depth = 0)
    (next : progress.queue.pop = some (task, queue))
    (searching : Searching final seed progress.queue w.trace log) :
    Runs (steps.process task queue progress) w
      (fun progress' w' => ∃ log', Searching final seed progress'.queue w'.trace log')
      fun _ w' => SearchedFrom final seed w'.trace := by
  obtain ⟨recorded, search, tracks⟩ := searching
  have distinct : (progress.queue.queue.map Task.targetArea).Nodup :=
    search.nodup.sublist ((List.sublist_append_right _ _).map _)
  obtain ⟨visited, front⟩ := tracks.visit distinct next
  rw [front] at search
  have started := recorded.start task
  refine steps.process_rule (fun _ => started.searchedFrom search root) ?_
  apply ((reports.reports task _).and (reports.investigate task _)).imp
  swap
  · rintro _ w' ⟨-, acts, grown, within⟩
    rw [grown]
    exact (started.more fun act member => inner_of_within act (within act member)).searchedFrom search root
  rintro result w1 ⟨⟨acts, grown, within, told⟩, -⟩
  have investigated := started.more fun act member => inner_of_within act (within act member)
  rw [List.nil_append] at investigated
  -- from here on the acts tell of the final outcome, and what follows tells of no other
  let Known (w' : World) : Prop := ∃ acts, final task acts = some (steps.followUps result) ∧
    Underway final seed task acts (log.map Prod.fst ++ [task]) log w'.trace
  have kept : ∀ w' w'' : World, Known w' → Leaves Silent w' w'' → Known w'' := by
    rintro w' w'' ⟨acts, told, underway⟩ ⟨more, grown, silent⟩
    refine ⟨acts ++ more, (reports.silent task acts more silent).trans told, ?_⟩
    rw [grown]
    exact underway.more fun act member => inner_of_silent act (silent act member)
  have settled : Known { w1 with trace := w1.trace ++ [.settled task (steps.followUps result)] } :=
    kept w1 _ ⟨acts, told, grown ▸ investigated⟩ ⟨[_], rfl, by simp [Silent]⟩
  have early : ∀ w' : World, Known w' → SearchedFrom final seed w'.trace :=
    fun w' ⟨_, _, underway⟩ => underway.searchedFrom search root
  apply (reports.settle task result _ _).imp _ fun _ w' leaves =>
    early w' (kept _ w' settled (leaves.mono silent_of_applying))
  intro gathered w2 leaves
  have before := kept _ w2 settled (leaves.mono silent_of_applying)
  have whole : log.map Prod.fst ++ [task] ++ queue.queue = order Task.targetArea seed log := by
    rw [← search.order_eq, List.append_assoc, List.singleton_append]
  apply (pushes_tracked visited whole kept task (steps.followUps result) before).imp
  · rintro queue' w' ⟨⟨tracked, waiting⟩, acts, told, underway⟩
    have visit := search.visit ((steps.followUps result).map (child task)) (by
      intro dir member
      obtain ⟨d, -, rfl⟩ := List.mem_map.1 member
      rfl)
    have now := underway.recorded
    simp only [Exploration.explored, told, Option.map_some, Option.toList_some] at now
    refine ⟨_, ⟨?_, now.log, now.first⟩, ?_, ?_⟩
    · rw [now.started, List.map_append]
      rfl
    · rw [waiting]
      exact visit
    · simpa using tracked
  · exact fun _ w' now => early w' now

theorem explore_searched {steps : Steps φ ρ} (reports : Reports steps final) {seed : Task}
    (root : seed.depth = 0) {env : Environment} {config : EngineConfig} {engineStart : Int} (left : Nat)
    {progress : Progress ρ} {w : World} {log : Log Task}
    (searching : Searching final seed progress.queue w.trace log) :
    Runs (steps.explore env config engineStart left progress) w
      (fun ended w' => SearchedFrom final seed w'.trace ∧ (ended.2 = .drained → Whole final [seed] w'.trace))
      fun _ w' => SearchedFrom final seed w'.trace := by
  refine (steps.explore_runs (fun progress w => ∃ log, Searching final seed progress.queue w.trace log)
    (fun _ _ _ kept => kept) ?_ left progress w ⟨log, searching⟩).weaken ?_
  · rintro progress w task queue next ⟨log, searching⟩
    exact process_searching reports root next searching
  · rintro ⟨progress', ending⟩ w' ⟨⟨log', recorded, search, -⟩, drained⟩
    refine ⟨searchedFrom_of recorded search root (List.prefix_append _ _), fun ended => ?_⟩
    have empty : progress'.queue.queue = [] := by
      have nothing := drained ended
      unfold Queue.pop at nothing
      cases waiting : progress'.queue.queue with
      | nil => rfl
      | cons task rest => simp [waiting] at nothing
    have whole := search.order_eq
    rw [empty, List.append_nil] at whole
    unfold Whole breadthFirst
    rw [recorded.log, recorded.started]
    exact whole

theorem queueSeeds_searching (final : Reading) {seed : Task} (root : seed.depth = 0) {w : World} (blank : w.trace = []) :
    Runs (Seeding.queueSeeds [seed]) w (fun queue w' => Searching final seed queue w'.trace [])
      fun _ w' => SearchedFrom final seed w'.trace := by
  have recorded : Recorded final seed [] [] (w.trace ++ [.pushed seed true]) := by
    rw [blank]
    exact ⟨rfl, rfl, rfl⟩
  apply Seeding.queueSeeds_rule
  · exact fun _ => searchedFrom_of recorded .start root (List.nil_prefix)
  · exact ⟨recorded, .start, ⟨by simp, by simp⟩⟩

/-! ### The engines -/

theorem research_reports (engine : ResearchEngine.Engine) (env : Environment) (question : Bytes) :
    Reports (ResearchEngine.steps engine env question) judgedDirections where
  toQuiet := research_quiet engine env question
  reports task w := by
    have executed : Keeps (Leaves fun act => Within act ∧ ∀ raw reply finding, act ≠ .reviewed raw reply finding)
        (Worker.execute env engine.setup task) :=
      Worker.role.keeps_execute env _ task (fun _ => ⟨trivial, by simp⟩) (fun _ _ => ⟨trivial, by simp⟩)
        fun _ => ⟨trivial, by simp [Worker.role]⟩
    refine Runs.bind ((executed w).imp ?_ fun _ _ _ => trivial)
    rintro raw w1 ⟨before, grown, unreviewed⟩
    refine Runs.bind (runs_emit (fun _ => Runs.bind ?_) fun _ => trivial)
    apply (Judge.review_runs env engine.client question raw _).imp _ fun _ _ _ => trivial
    rintro finding w2 ⟨reply, rfl, adds⟩
    refine Runs.bind (runs_emit (fun _ => Runs.pure ?_) fun _ => trivial)
    refine ⟨before ++ [.reviewed raw reply (Judge.judged env.parser raw reply)], ?_, ?_, ?_⟩
    · simp [adds.trace, grown]
    · exact List.forall_mem_append.2 ⟨fun act member => (unreviewed act member).1, by simp [Within]⟩
    · have none : judgedDirections task before = none := by
        refine List.findSome?_eq_none_iff.2 fun act member => ?_
        cases act with
        | reviewed raw reply finding => exact absurd rfl ((unreviewed _ member).2 raw reply finding)
        | _ => rfl
      unfold judgedDirections at none ⊢
      rw [List.findSome?_append, none]
      rfl
  silent task acts more silent := by
    have none : judgedDirections task more = none := by
      refine List.findSome?_eq_none_iff.2 fun act member => ?_
      have holds := silent act member
      cases act <;> first | rfl | cases holds
    unfold judgedDirections at none ⊢
    rw [List.findSome?_append, none, Option.or_none]

theorem editedFindings_append (acts more : List Act) :
    editedFindings (acts ++ more) = editedFindings acts ++ editedFindings more := List.filterMap_append

theorem finalFinding_combines {task : Task} {subs : List (SubRun EditFinding)} {finding : EditFinding}
    (combines : Editor.role.Combines task subs finding) (areas : subs.map SubRun.area = areas task) :
    (finalFinding task (subs.map SubRun.finding)).outcome = finding.outcome ∧
      (finalFinding task (subs.map SubRun.finding)).suggestedDirections = finding.suggestedDirections := by
  unfold Role.Combines at combines
  unfold finalFinding
  unfold Agent.areas at areas
  split_ifs at combines areas ⊢ with single
  · rw [combines]
    exact ⟨rfl, rfl⟩
  · obtain ⟨duration, rfl⟩ := combines
    rw [← areas, List.zip_map', List.foldl_map]
    exact ⟨rfl, rfl⟩

theorem edit_reports (engine : EditEngine.Engine) (env : Environment) :
    Reports (EditEngine.steps engine env) editedDirections where
  toQuiet := edit_quiet engine env
  reports task w := by
    refine Runs.bind ((Editor.role.execute_runs env _ task w).imp ?_ fun _ _ _ => trivial)
    rintro finding w1 ⟨subs, executed, adds⟩
    refine Runs.bind (runs_emit (fun _ => Runs.pure ⟨_, adds.trace, ?_, ?_⟩) fun _ => trivial)
    · intro act member
      obtain ⟨sub, -, listed⟩ := List.mem_flatMap.1 member
      simp only [SubRun.acts, List.mem_cons, List.not_mem_nil, or_false] at listed
      rcases listed with rfl | rfl | rfl <;> exact trivial
    · have told : editedFindings (subs.flatMap fun sub => sub.acts Editor.role task) =
          subs.map SubRun.finding := by
        clear executed adds
        induction subs with
        | nil => rfl
        | cons sub rest ih =>
          rw [List.flatMap_cons, editedFindings_append, ih]
          rfl
      obtain ⟨outcome, directions⟩ := finalFinding_combines executed.combines executed.areas
      have all : ¬ (subs.map SubRun.finding).length < (areas task).length := by
        rw [← executed.areas, List.length_map, List.length_map]
        exact Nat.lt_irrefl _
      unfold editedDirections
      simp only [told, if_neg all, outcome, directions]
      rfl
  silent task acts more silent := by
    have none : editedFindings more = [] := by
      refine List.filterMap_eq_nil_iff.2 fun act member => ?_
      have holds := silent act member
      cases act <;> first | rfl | cases holds
    unfold editedDirections
    rw [editedFindings_append, none, List.append_nil]

theorem searched_nil (final : Reading) (seeds : List Task) : Searched final seeds [] :=
  ⟨List.nil_prefix, by simp [startedTasks], List.Pairwise.nil, by simp [startedTasks]⟩

theorem whole_nil {final : Reading} {seeds : List Task} (none : seeds = []) : Whole final seeds [] := by
  rw [none]
  rfl

theorem seeded_searched {steps : Steps φ ρ} (reports : Reports steps final) {seed : Task}
    (root : seed.depth = 0) {env : Environment} {config : EngineConfig} {engineStart : Int} (left : Nat)
    {gathered : ρ} {w : World} (blank : w.trace = []) {seeds : List Task} (one : seeds = [seed]) :
    Runs (Seeding.queueSeeds [seed]) w (fun queue w' =>
      Runs (steps.explore env config engineStart left { queue, iterations := 0, gathered }) w'
        (fun ended w'' => Searched final seeds w''.trace ∧ (ended.2 = .drained → Whole final seeds w''.trace))
        fun _ w'' => Searched final seeds w''.trace)
      fun _ w' => Searched final seeds w'.trace := by
  subst one
  refine (queueSeeds_searching final root blank).imp (fun queue w' searching => ?_) fun _ _ found =>
    found.toSearched
  exact (explore_searched reports root left searching).imp (fun _ _ found => ⟨found.1.toSearched, found.2⟩)
    fun _ _ found => found.toSearched

theorem SearchedFrom.cases {seed : Task} {trace : List Act} (searched : SearchedFrom final seed trace) :
    startedTasks trace = [] ∨ ∃ rest, startedTasks trace = seed :: rest ∧
      ((seed :: rest).map Task.targetArea).Nodup := by
  have order := searched.order
  have distinct := (firstOccurrences_nodup Task.targetArea
    (seed :: (exploredLog final trace).proposals)).sublist (order.sublist.map Task.targetArea)
  cases started : startedTasks trace with
  | nil => exact .inl rfl
  | cons first rest =>
    rw [started] at order distinct
    obtain ⟨later, whole⟩ := order
    cases (List.cons.inj whole).1
    exact .inr ⟨rest, rfl, distinct⟩

end CppCoder.Exploration
