import CppCoder.Chronicle
import CppCoder.Viewer

/-! What the page draws of a research run, event by event: the nodes of its tasks and of the directions that
the judge discarded, and how each event changes their statuses. -/

namespace CppCoder.Drawing
open Support Utf8 JsonValue Ancestry CppCoder.Types Session Viewer Chronicle

/-- The nodes are these with the statuses of a table, and every node but the first hangs from one that was
there before it. -/
structure Drawn (nodes : List Node) (table : Bytes → Status) (g : Graph) : Prop where
  painted : g.nodes = paint nodes table
  edges : g.edges = Ancestry.edges Node.id Node.parentId nodes
  rooted : Rooted Node.id Node.parentId nodes
  distinct : (nodes.map Node.id).Nodup

variable {nodes : List Node} {table : Bytes → Status} {g : Graph}

theorem Drawn.setStatus (drawn : Drawn nodes table g) (id : Bytes) (status : Status) :
    Drawn nodes (Function.update table id status)
        { g with nodes := Viewer.setStatus g.nodes id status } := by
  refine ⟨?_, drawn.edges, drawn.rooted, drawn.distinct⟩
  rw [drawn.painted]
  exact setStatus_paint _ _ _ _

theorem paint_append (nodes : List Node) (table : Bytes → Status) {n : Node}
    (fresh : n.id ∉ nodes.map Node.id) :
    paint (nodes ++ [n]) (Function.update table n.id n.status) = paint nodes table ++ [n] := by
  unfold paint
  rw [List.map_append, List.map_singleton, Function.update_self]
  congr 1
  apply List.map_congr_left
  intro m member
  have other : m.id ≠ n.id := fun same => fresh (same ▸ List.mem_map_of_mem member)
  rw [Function.update_of_ne other]

theorem Drawn.addNode (drawn : Drawn nodes table g) {id parentId : Bytes} (depth : Int) (label : Bytes)
    (status : Status) (fresh : id ∉ nodes.map Node.id) (named : parentId ≠ [])
    (known : parentId ∈ nodes.map Node.id) :
    Drawn (nodes ++ [newNode id parentId depth label status]) (Function.update table id status)
      (addNode g id parentId depth label status) := by
  have absent : find g.nodes id = none := by
    rw [drawn.painted, find_paint, find_none fresh]
    rfl
  have below : (newNode id parentId depth label status).parentId = some parentId := if_neg named
  have seen : (find (g.nodes ++ [newNode id parentId depth label status]) parentId).isSome = true := by
    rw [find_isSome, List.map_append, drawn.painted, paint_ids]
    exact List.mem_append_left _ known
  unfold Viewer.addNode
  rw [absent, if_neg (by simp)]
  refine ⟨?_, ?_, ?_, ?_⟩
  · rw [drawn.painted]
    exact (@paint_append nodes table (newNode id parentId depth label status) fresh).symm
  · dsimp only
    rw [if_pos ⟨named, seen⟩, drawn.edges, edges_append]
    congr 1
    unfold Ancestry.edges
    rw [List.filterMap_cons, below]
    rfl
  · refine drawn.rooted.append (.inr ?_)
    obtain ⟨p, member, same⟩ := List.mem_map.1 known
    exact ⟨p, member, by rw [below, same]⟩
  · rw [List.map_append, List.nodup_append]
    refine ⟨drawn.distinct, by simp, ?_⟩
    intro a old b new same
    have equal : b = id := List.mem_singleton.1 new
    exact fresh (equal ▸ same ▸ old)

/-! ### Tasks and directions as nodes -/

def parentOf (t : Task) : Bytes := if t.parentId = [] then question else t.parentId

def taskNode (t : Task) : Node := newNode t.id (parentOf t) t.depth (shortLabel t.targetArea) .queued

def discarded (b : Block) : List Task :=
  b.raw.suggestedDirections.filter fun d => !(b.finding.suggestedDirections.map Task.id).contains d.id

theorem mem_discarded {b : Block} {d : Task} : d ∈ discarded b ↔
    d ∈ b.raw.suggestedDirections ∧ d.id ∉ b.finding.suggestedDirections.map Task.id := by
  unfold discarded
  rw [List.mem_filter, Bool.not_eq_true', ← Bool.not_eq_true, List.contains_iff_mem]

def discardNode (b : Block) (d : Task) : Node :=
  newNode d.id b.task.id (b.task.depth + 1) (shortLabel d.targetArea) .rejected

def blockNodes (b : Block) : List Node := (discarded b).map (discardNode b) ++ b.queued.map taskNode

def rootNode : Node := newNode question [] (-1) (ascii "question") .root

def sketch (seed : Task) (blocks : List Block) : List Node :=
    rootNode :: taskNode seed :: blocks.flatMap blockNodes

theorem question_ne : question ≠ [] := by decide

theorem parentOf_ne (t : Task) : parentOf t ≠ [] := by
  unfold parentOf
  split_ifs with none
  · exact question_ne
  · exact none

def repaint (table : Bytes → Status) (ids : List Bytes) (status : Status) : Bytes → Status :=
  fun id => if ids.contains id then status else table id

theorem repaint_of_mem {table : Bytes → Status} {ids : List Bytes} {status : Status} {id : Bytes}
    (listed : id ∈ ids) :
    repaint table ids status id = status := if_pos (List.contains_iff_mem.2 listed)

theorem repaint_of_not_mem {table : Bytes → Status} {ids : List Bytes} {status : Status} {id : Bytes}
    (unlisted : id ∉ ids) : repaint table ids status id = table id :=
      if_neg (mt List.contains_iff_mem.1 unlisted)

@[simp] theorem repaint_nil (table : Bytes → Status) (status : Status) :
    repaint table [] status = table := by
  funext id
  simp [repaint]

theorem repaint_cons (table : Bytes → Status) (id : Bytes) (ids : List Bytes) (status : Status) :
    repaint table (id :: ids) status = repaint (Function.update table id status) ids status := by
  funext other
  unfold repaint
  by_cases same : other = id
  · subst same
    simp
  · simp [same]

theorem applyEvent_queued (g : Graph) (t : Task) :
    applyEvent g (EngineLoop.taskQueued t) = some (taskQueued g (EngineLoop.taskQueued t)) := by
  have name : eventName (EngineLoop.taskQueued t) = ascii "task_queued" := eventName_event _ _
  unfold applyEvent
  rw [name, if_neg (by decide), if_pos rfl]

theorem applyEvent_started (g : Graph) (t : Task) : applyEvent g (EngineLoop.taskStarted t) =
    some { g with nodes := setStatus g.nodes t.id .current } := by
  have name : eventName (EngineLoop.taskStarted t) = ascii "task_started" := eventName_event _ _
  unfold applyEvent
  rw [name, if_neg (by decide), if_neg (by decide), if_pos rfl]
  rfl

theorem applyEvent_worker (g : Graph) (t : Task) (raw : Finding) :
    applyEvent g (ResearchEngine.workerResult t raw) = some { g with rawDirectionsByTask :=
      (t.id, listField "directions" (ResearchEngine.workerResult t raw)) :: g.rawDirectionsByTask } := by
  have name : eventName (ResearchEngine.workerResult t raw) = ascii "worker_result" := eventName_event _ _
  unfold applyEvent
  rw [name, if_neg (by decide), if_neg (by decide), if_neg (by decide), if_pos rfl]
  rfl

theorem applyEvent_judge (g : Graph) (t : Task) (raw finding : Finding) :
    applyEvent g (ResearchEngine.judgeResult t raw finding) =
      some (judgeResult g (ResearchEngine.judgeResult t raw finding)) := by
  have name : eventName (ResearchEngine.judgeResult t raw finding) = ascii "judge_result" :=
    eventName_event _ _
  unfold applyEvent
  rw [name, if_neg (by decide), if_neg (by decide), if_neg (by decide), if_neg (by decide), if_pos rfl]

theorem applyEvent_other (g : Graph) {name : String} (fields : List (String × Json))
    (other : ascii name ∉ [ascii "question", ascii "task_queued", ascii "task_started",
      ascii "worker_result",
      ascii "judge_result", ascii "answer_progress"]) : applyEvent g (event name fields) = some g := by
  simp only [List.mem_cons, List.not_mem_nil, or_false, not_or] at other
  obtain ⟨question, queued, started, worker, judge, progress⟩ := other
  unfold applyEvent
  rw [eventName_event, if_neg question, if_neg queued, if_neg started, if_neg worker, if_neg judge,
    if_neg progress]

def directionJson (d : Task) : Json :=
  .obj [(ascii "id", .str d.id), (ascii "target_area", .str d.targetArea),
    (ascii "research_goal", .str d.researchGoal)]

theorem addDiscarded_drawn (drawn : Drawn nodes table g) {id : Bytes} (depth : Int) (keptIds : List Bytes)
    (named : id ≠ []) (known : id ∈ nodes.map Node.id) (directions : List Task)
    (fresh : (nodes.map Node.id ++ (directions.filter fun d => !keptIds.contains d.id).map Task.id).Nodup) :
    Drawn (nodes ++ (directions.filter fun d => !keptIds.contains d.id).map fun d =>
        newNode d.id id depth (shortLabel d.targetArea) .rejected)
      (repaint table ((directions.filter fun d => !keptIds.contains d.id).map Task.id) .rejected)
      ((directions.map directionJson).foldl (addDiscarded id depth keptIds) g) := by
  induction directions generalizing nodes table g with
  | nil => simpa using drawn
  | cons d rest ih =>
    rw [List.map_cons, List.foldl_cons]
    by_cases kept : d.id ∈ keptIds
    · have dropped : (d :: rest).filter (fun d => !keptIds.contains d.id) =
          rest.filter fun d => !keptIds.contains d.id := by
        simp [kept]
      have same : addDiscarded id depth keptIds g (directionJson d) = g :=
        if_pos (List.contains_iff_mem.2 kept)
      rw [dropped] at fresh ⊢
      rw [same]
      exact ih drawn known fresh
    · have taken : (d :: rest).filter (fun d => !keptIds.contains d.id) =
          d :: rest.filter fun d => !keptIds.contains d.id := by
        simp [kept]
      have added : addDiscarded id depth keptIds g (directionJson d) =
          addNode g d.id id depth (shortLabel d.targetArea) .rejected :=
        if_neg (mt List.contains_iff_mem.1 kept)
      rw [taken, List.map_cons] at fresh ⊢
      have apart := List.nodup_middle.1 fresh
      have absent : d.id ∉ nodes.map Node.id := fun there =>
        (List.nodup_cons.1 apart).1 (List.mem_append_left _ there)
      have grown := drawn.addNode depth (shortLabel d.targetArea) .rejected absent named known
      have later := ih grown ?_ ?_
      · rw [added, List.map_cons, repaint_cons]
        simpa using later
      · rw [List.map_append]
        exact List.mem_append_left _ known
      · rw [List.map_append]
        simpa using fresh

theorem taskQueued_eq (drawn : Drawn nodes table g) {p : Node} (member : p ∈ nodes) {t : Task}
    (below : parentOf t = p.id) (deeper : (t.depth : Int) = p.depth + 1) :
    taskQueued g (EngineLoop.taskQueued t) = addNode g t.id (parentOf t) t.depth
        (shortLabel t.targetArea) .queued := by
  have seen : find g.nodes (parentOf t) = some { p with status := table p.id } := by
    rw [drawn.painted, find_paint, below, find_mem drawn.distinct member]
    rfl
  have unfolded : taskQueued g (EngineLoop.taskQueued t) = addNode g t.id (parentOf t)
      (((find g.nodes (parentOf t)).map fun n => n.depth + 1).getD 0) (shortLabel t.targetArea)
        .queued := rfl
  rw [unfolded, seen, deeper]
  rfl

theorem queued_drawn (drawn : Drawn nodes table g) {p : Node} (member : p ∈ nodes) (tasks : List Task)
    (below : ∀ t ∈ tasks, parentOf t = p.id) (deeper : ∀ t ∈ tasks, (t.depth : Int) = p.depth + 1)
    (fresh : (nodes.map Node.id ++ tasks.map Task.id).Nodup) :
    ∃ g', (tasks.map EngineLoop.taskQueued).foldlM applyEvent g = some g' ∧
      Drawn (nodes ++ tasks.map taskNode) (repaint table (tasks.map Task.id) .queued) g' := by
  induction tasks generalizing nodes table g with
  | nil => exact ⟨g, rfl, by simpa using drawn⟩
  | cons t rest ih =>
    rw [List.map_cons] at fresh
    have apart := List.nodup_middle.1 fresh
    have absent : t.id ∉ nodes.map Node.id := fun there =>
      (List.nodup_cons.1 apart).1 (List.mem_append_left _ there)
    have known : parentOf t ∈ nodes.map Node.id := by
      rw [below t List.mem_cons_self]
      exact List.mem_map_of_mem member
    have grown := drawn.addNode t.depth (shortLabel t.targetArea) .queued absent (parentOf_ne t) known
    obtain ⟨g', played, later⟩ := ih grown (List.mem_append_left _ member)
      (fun other there => below other (List.mem_cons_of_mem _ there))
      (fun other there => deeper other (List.mem_cons_of_mem _ there))
        (by rw [List.map_append]; simpa using fresh)
    refine ⟨g', ?_, ?_⟩
    · rw [List.map_cons, List.foldlM_cons, applyEvent_queued,
        taskQueued_eq drawn member (below t List.mem_cons_self) (deeper t List.mem_cons_self)]
      exact played
    · rw [List.map_cons, List.map_cons, repaint_cons]
      simpa [taskNode] using later

/-! ### One turn -/

def verdictTable (b : Block) (table : Bytes → Status) : Bytes → Status :=
  repaint (Function.update table b.task.id .explored) ((discarded b).map Task.id) .rejected

theorem judgeResult_eq (drawn : Drawn nodes table g) {b : Block} (task : taskNode b.task ∈ nodes)
    (raw : g.rawDirectionsByTask.lookup b.task.id = some (b.raw.suggestedDirections.map directionJson)) :
    judgeResult g (ResearchEngine.judgeResult b.task b.raw b.finding) =
      (b.raw.suggestedDirections.map directionJson).foldl
        (addDiscarded b.task.id (b.task.depth + 1) (b.finding.suggestedDirections.map Task.id))
        { g with nodes := setStatus g.nodes b.task.id .explored } := by
  have unfolded : judgeResult g (ResearchEngine.judgeResult b.task b.raw b.finding) =
      ((g.rawDirectionsByTask.lookup b.task.id).getD []).foldl
        (addDiscarded b.task.id (((find g.nodes b.task.id).map Node.depth).getD 0 + 1)
          ((b.finding.suggestedDirections.map directionJson).map (stringField "id")))
        { g with nodes := setStatus g.nodes b.task.id .explored } := rfl
  have seen : find g.nodes b.task.id = some { taskNode b.task with status := table b.task.id } := by
    rw [drawn.painted, find_paint]
    exact congrArg _ (find_mem drawn.distinct task)
  have ids : (b.finding.suggestedDirections.map directionJson).map (stringField "id") =
      b.finding.suggestedDirections.map Task.id := by
    rw [List.map_map]
    rfl
  rw [unfolded, seen, raw, ids]
  rfl

theorem heads_drawn (drawn : Drawn nodes table g) {b : Block} (named : b.task.id ≠ [])
    (task : taskNode b.task ∈ nodes)
    (fresh : (nodes.map Node.id ++ (discarded b).map Task.id).Nodup) :
    ∃ g', [EngineLoop.taskStarted b.task, ResearchEngine.workerResult b.task b.raw,
        ResearchEngine.judgeResult b.task b.raw b.finding].foldlM applyEvent g = some g' ∧
      Drawn (nodes ++ (discarded b).map (discardNode b)) (verdictTable b table) g' := by
  have started := drawn.setStatus b.task.id .current
  have known : b.task.id ∈ nodes.map Node.id := List.mem_map_of_mem (f := Node.id) task
  have told : Drawn nodes (Function.update table b.task.id .current)
      { g with
        nodes := setStatus g.nodes b.task.id .current
        rawDirectionsByTask := (b.task.id, b.raw.suggestedDirections.map directionJson) ::
          g.rawDirectionsByTask } :=
    ⟨started.painted, started.edges, started.rooted, started.distinct⟩
  have judged := told.setStatus b.task.id .explored
  rw [Function.update_idem] at judged
  have added := addDiscarded_drawn judged (b.task.depth + 1)
    (b.finding.suggestedDirections.map Task.id) named known
    b.raw.suggestedDirections fresh
  refine ⟨_, ?_, added⟩
  rw [List.foldlM_cons, applyEvent_started, Option.bind_eq_bind, Option.bind_some, List.foldlM_cons,
    applyEvent_worker,
    Option.bind_eq_bind, Option.bind_some, List.foldlM_cons, applyEvent_judge, Option.bind_eq_bind,
      Option.bind_some]
  exact congrArg some (judgeResult_eq told task (by simp))

structure Crowned (nodes : List Node) (t : Task) (table table' : Bytes → Status) : Prop where
  self : table' t.id = .answer
  above : ∀ m ∈ nodes, Over nodes m (taskNode t) → m.id ≠ t.id → table' m.id = marked (table m.id)
  other : ∀ id, id ≠ t.id → (∀ m ∈ nodes, m.id = id → ¬ Over nodes m (taskNode t)) → table' id = table id

theorem progress_drawn (drawn : Drawn nodes table g) {t : Task} (task : taskNode t ∈ nodes)
    (fields : List (String × Json)) :
    ∃ g' table', applyEvent g (event "answer_progress" (("id", .str t.id) :: fields)) = some g' ∧
      Drawn nodes table' g' ∧ Crowned nodes t table table' := by
  have seen : find g.nodes t.id = some { taskNode t with status := table t.id } := by
    rw [drawn.painted, find_paint]
    exact congrArg _ (find_mem drawn.distinct task)
  have id : stringField "id" (event "answer_progress" (("id", .str t.id) :: fields)) = t.id := rfl
  obtain ⟨before, after, split⟩ := List.append_of_mem task
  have room : before.length ≤ g.nodes.length := by
    rw [drawn.painted, paint, List.length_map, split, List.length_append]
    omega
  obtain ⟨table', walked, above, other⟩ := markParents_paint drawn.rooted drawn.distinct _ before
    (taskNode t) after rfl
    split _ room (Function.update table t.id .answer) { taskNode t with status := table t.id } rfl
  refine ⟨{ g with nodes := paint nodes table', answerNodeIds := g.answerNodeIds ++ [t.id] }, table', ?_,
    ⟨rfl, drawn.edges, drawn.rooted, drawn.distinct⟩, ?_, ?_, ?_⟩
  · unfold applyEvent
    rw [eventName_event, if_neg (by decide), if_neg (by decide), if_neg (by decide), if_neg (by decide),
      if_neg (by decide), if_pos rfl]
    unfold answerProgress
    dsimp only
    rw [id, seen]
    dsimp only
    rw [show setStatus g.nodes t.id .answer = paint nodes (Function.update table t.id .answer) by
      rw [drawn.painted, setStatus_paint], walked]
    rfl
  · by_cases exceeds : Over nodes (taskNode t) (taskNode t)
    · have loop := above _ task exceeds
      rw [show (taskNode t).id = t.id from rfl, Function.update_self] at loop
      exact loop
    · rw [other t.id, Function.update_self]
      intro m member same
      rw [item_unique drawn.distinct member task same]
      exact exceeds
  · intro m member exceeds apart
    rw [above m member exceeds, Function.update_of_ne apart]
  · intro id apart none
    rw [other id none, Function.update_of_ne apart]

structure Turned (nodes : List Node) (b : Block) (table table' : Bytes → Status) : Prop where
  plain : b.finding.outcome ≠ .success → table' = repaint (verdictTable b table)
    (b.queued.map Task.id) .queued
  success : b.finding.outcome = .success → Crowned nodes b.task (verdictTable b table) table'

theorem blockNodes_ids (b : Block) :
    (blockNodes b).map Node.id = (discarded b).map Task.id ++ b.queued.map Task.id := by
  unfold blockNodes
  rw [List.map_append, List.map_map, List.map_map]
  rfl

theorem block_drawn (drawn : Drawn nodes table g) {b : Block} {parser : Parser} (turn : Turn parser b)
    (named : b.task.id ≠ []) (task : taskNode b.task ∈ nodes)
    (fresh : (nodes.map Node.id ++ (blockNodes b).map Node.id).Nodup) :
    ∃ g' table', b.events.foldlM applyEvent g = some g' ∧ Drawn (nodes ++ blockNodes b) table' g' ∧
      Turned (nodes ++ blockNodes b) b table table' := by
  rw [blockNodes_ids, ← List.append_assoc] at fresh
  obtain ⟨g1, heads, judged⟩ := heads_drawn drawn named task (List.nodup_append.1 fresh).1
  have kept : taskNode b.task ∈ nodes ++ (discarded b).map (discardNode b) := List.mem_append_left _ task
  unfold Block.events
  rw [List.append_assoc, List.foldlM_append, heads, Option.bind_eq_bind, Option.bind_some,
    List.foldlM_append]
  by_cases success : b.finding.outcome = .success
  · have none : b.queued = [] := turn.none_queued success
    have same : blockNodes b = (discarded b).map (discardNode b) := by simp [blockNodes, none]
    obtain ⟨g2, table', progress, drawn', crowned⟩ :=
      progress_drawn judged kept [("summary", .str b.finding.summary)]
    refine ⟨g2, table', ?_, by rw [same]; exact drawn', fun other => absurd success other,
      fun _ => by rw [same]; exact crowned⟩
    rw [none, progressEvents, if_pos success, List.foldlM_cons, progress]
    rfl
  · have quiet : progressEvents b.task b.finding = [] := if_neg success
    have child : ∀ t ∈ b.queued, t.parentId = b.task.id ∧ t.depth = b.task.depth + 1 := by
      intro t member
      obtain ⟨d, -, rfl⟩ := turn.children t member
      exact ⟨rfl, rfl⟩
    have below : ∀ t ∈ b.queued, parentOf t = (taskNode b.task).id := by
      intro t member
      unfold parentOf
      rw [(child t member).1, if_neg named]
      rfl
    have deeper : ∀ t ∈ b.queued, (t.depth : Int) = (taskNode b.task).depth + 1 := by
      intro t member
      rw [(child t member).2]
      exact Int.natCast_succ _
    have new : ((nodes ++ (discarded b).map (discardNode b)).map Node.id ++
        b.queued.map Task.id).Nodup := by
      rw [List.map_append, List.map_map]
      exact fresh
    obtain ⟨g2, queued, drawn'⟩ := queued_drawn judged kept b.queued below deeper new
    refine ⟨g2, _, ?_, ?_, fun _ => rfl, fun impossible => absurd impossible success⟩
    · rw [quiet]
      exact queued
    · unfold blockNodes
      rw [← List.append_assoc]
      exact drawn'

end CppCoder.Drawing
