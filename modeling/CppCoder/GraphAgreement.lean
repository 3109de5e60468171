import CppCoder.Playback

/-! The graph that the page draws of a run agrees with the run: its nodes, where they hang, how deep they
are, and the status that each one has at the end. -/

namespace CppCoder.GraphAgreement
open Support Utf8 JsonValue Program Ancestry CppCoder.Types Session ResearchEngine Chronicle EventProtocol
open Viewer Drawing Playback

variable {parser : Parser} {low high : Nat} {seed : Task} {blocks : List Block} {waiting : List Task}

def proposals (events : List Json) : List (Bytes × Bytes) :=
  (events.filter (told "worker_result")).flatMap fun e =>
    (listField "directions" e).map fun d => (idOf e, stringField "id" d)

/-- Those that the judge kept. -/
def keeps (events : List Json) : List (Bytes × Bytes) :=
  (events.filter (told "judge_result")).flatMap fun e =>
    (listField "kept_directions" e).map fun d => (idOf e, stringField "id" d)

def discards (events : List Json) : List (Bytes × Bytes) := (proposals events).filter fun pair =>
    pair ∉ keeps events

def successful (events : List Json) : List Bytes :=
  ((events.filter (told "judge_result")).filter fun e => stringField "outcome" e ==
    ascii "success").map idOf

def Edge (g : Graph) (a b : Bytes) : Prop := (a, b) ∈ g.edges

def OnAnswer (events : List Json) (g : Graph) (id : Bytes) : Prop :=
  ∃ s ∈ successful events, Relation.ReflTransGen (Edge g) id s

structure IsTree (g : Graph) : Prop where
  distinct : (g.nodes.map Node.id).Nodup
  root : ∃ n ∈ g.nodes, n.id = question ∧ n.parentId = none ∧ n.status = .root
  unentered : g.edges.filter (fun e => e.2 = question) = []
  incoming : ∀ n ∈ g.nodes, n.id ≠ question → ∃ p ∈ g.nodes.map Node.id,
    n.parentId = some p ∧ g.edges.filter (fun e => e.2 = n.id) = [(p, n.id)]
  connected : ∀ n ∈ g.nodes, Relation.ReflTransGen (Edge g) question n.id

/-- What the graph shows of the log. -/
structure Agrees (events : List Json) (g : Graph) : Prop where
  tree : IsTree g
  ids : ∀ id, id ∈ g.nodes.map Node.id ↔
    id = question ∨ id ∈ idsOf "task_queued" events ∨ id ∈ (discards events).map Prod.snd
  tasks : ∀ q ∈ events, told "task_queued" q = true → ∃ n ∈ g.nodes, n.id = idOf q ∧
    n.parentId = some (if stringField "parent_id" q = [] then question else stringField "parent_id" q) ∧
    integerField "depth" q = some n.depth
  rejected : ∀ pair ∈ discards events, ∃ n ∈ g.nodes, n.id = pair.2 ∧ n.parentId = some pair.1 ∧
    n.status = .rejected
  answer : ∀ n ∈ g.nodes, n.id ∈ idsOf "task_queued" events → OnAnswer events g n.id → n.status = .answer
  explored : ∀ n ∈ g.nodes, n.id ∈ idsOf "task_started" events → ¬ OnAnswer events g n.id →
    n.status = .explored
  queued : ∀ n ∈ g.nodes, n.id ∈ idsOf "task_queued" events → n.id ∉ idsOf "task_started" events →
    n.status = .queued

/-! ### The events about a task -/

theorem filter_unqueued (name : String) (other : ascii "task_queued" ≠ ascii name) (tasks : List Task) :
    (tasks.map EngineLoop.taskQueued).filter (told name) = [] :=
  List.filter_eq_nil_iff.2 fun e member => by simpa using taskQueued_told name other tasks e member

section Log
variable (asked : Bytes) (keywords : List Bytes) (seed : Task) (blocks : List Block)
  (result : ResearchResult)

theorem filter_log (name : String)
    (other : ascii name ∉ [ascii "question", ascii "keywords_extracted", ascii "answer_found",
      ascii "complete"]) :
    (turnsLog asked keywords seed blocks result).filter (told name) =
      ([seed].map EngineLoop.taskQueued).filter (told name) ++ blocks.flatMap fun b =>
          b.events.filter (told name) := by
  simp only [List.mem_cons, List.not_mem_nil, or_false, not_or] at other
  obtain ⟨question, extracted, answered, completed⟩ := other
  have opening := List.filter_eq_nil_iff.2 fun e member => by
    simpa using opening_told name ⟨Ne.symm question, Ne.symm extracted⟩ asked keywords e member
  have answer := List.filter_eq_nil_iff.2 fun e member => by
    simpa using answer_told name (Ne.symm answered) result e member
  have last := List.filter_eq_nil_iff.2 fun e member => by
    simpa using complete_told name (Ne.symm completed) result e member
  have split : turnsLog asked keywords seed blocks result = openingEvents asked keywords ++
      ([seed].map EngineLoop.taskQueued ++ blocks.flatMap Block.events) ++ answerEvents result ++
          [complete result] := by
    simp [turnsLog]
  rw [split, List.filter_append, List.filter_append, List.filter_append, List.filter_append,
    opening, answer, last,
    List.nil_append, List.append_nil, List.append_nil, List.filter_flatMap]

theorem filter_turns (name : String) (one : Block → Json)
    (each : ∀ b : Block, b.events.filter (told name) = [one b])
    (other : ascii name ∉ [ascii "question", ascii "keywords_extracted", ascii "answer_found",
      ascii "complete"])
    (queued : ascii "task_queued" ≠ ascii name) :
    (turnsLog asked keywords seed blocks result).filter (told name) = blocks.map one := by
  rw [filter_log asked keywords seed blocks result name other, filter_unqueued name queued, List.nil_append]
  simp only [each]
  exact List.map_eq_flatMap.symm

end Log

theorem filter_events (name : String) (b : Block) (other : ascii "answer_progress" ≠ ascii name) :
    b.events.filter (told name) =
      (if ascii "task_started" = ascii name then [EngineLoop.taskStarted b.task] else []) ++
      (if ascii "worker_result" = ascii name then [workerResult b.task b.raw] else []) ++
      (if ascii "judge_result" = ascii name then [judgeResult b.task b.raw b.finding] else []) ++
      (b.queued.map EngineLoop.taskQueued).filter (told name) := by
  have progress := List.filter_eq_nil_iff.2 fun e member => by
    simpa using progressEvents_told name other b.task b.finding e member
  unfold Block.events
  rw [List.filter_append, List.filter_append, progress, List.append_nil, filter_heads]

theorem worker_of_block (b : Block) : b.events.filter (told "worker_result") =
    [workerResult b.task b.raw] := by
  rw [filter_events _ _ (by decide), filter_unqueued _ (by decide), if_neg (by decide), if_pos rfl,
    if_neg (by decide)]
  rfl

theorem judge_of_block (b : Block) : b.events.filter (told "judge_result") =
    [judgeResult b.task b.raw b.finding] := by
  rw [filter_events _ _ (by decide), filter_unqueued _ (by decide), if_neg (by decide),
    if_neg (by decide), if_pos rfl]
  rfl

theorem filter_queued (tasks : List Task) :
    (tasks.map EngineLoop.taskQueued).filter (told "task_queued") = tasks.map EngineLoop.taskQueued := by
  refine List.filter_eq_self.2 fun e member => ?_
  obtain ⟨t, -, rfl⟩ := List.mem_map.1 member
  exact (told_event _ _ _).trans (by decide)

theorem tasks_of_block (b : Block) : b.events.filter (told "task_queued") =
    b.queued.map EngineLoop.taskQueued := by
  rw [filter_events _ _ (by decide), filter_queued, if_neg (by decide), if_neg (by decide),
    if_neg (by decide)]
  rfl

section Log
variable (asked : Bytes) (keywords : List Bytes) (seed : Task) (blocks : List Block)
  (result : ResearchResult)

theorem tasks_log : (turnsLog asked keywords seed blocks result).filter (told "task_queued") =
    (queuedTasks seed blocks).map EngineLoop.taskQueued := by
  rw [filter_log asked keywords seed blocks result "task_queued" (by decide), filter_queued]
  simp only [tasks_of_block]
  simp [queuedTasks, List.map_flatMap]

theorem proposals_log : proposals (turnsLog asked keywords seed blocks result) =
    blocks.flatMap fun b => b.raw.suggestedDirections.map fun d => (b.task.id, d.id) := by
  unfold proposals
  rw [filter_turns asked keywords seed blocks result "worker_result" _ worker_of_block (by decide)
    (by decide), List.flatMap_map]
  apply List.flatMap_congr
  intro b _
  exact List.map_map

theorem keeps_log : keeps (turnsLog asked keywords seed blocks result) =
    blocks.flatMap fun b => b.finding.suggestedDirections.map fun d => (b.task.id, d.id) := by
  unfold keeps
  rw [filter_turns asked keywords seed blocks result "judge_result" _ judge_of_block (by decide)
    (by decide), List.flatMap_map]
  apply List.flatMap_congr
  intro b _
  exact List.map_map

theorem mem_discards (started : (blocks.map fun b => b.task.id).Nodup) (pair : Bytes × Bytes) :
    pair ∈ discards (turnsLog asked keywords seed blocks result) ↔
      ∃ b ∈ blocks, ∃ d ∈ discarded b, pair = (b.task.id, d.id) := by
  unfold discards
  rw [List.mem_filter, proposals_log, keeps_log]
  simp only [decide_eq_true_eq, List.mem_flatMap, List.mem_map]
  constructor
  · rintro ⟨⟨b, there, d, raw, rfl⟩, absent⟩
    refine ⟨b, there, d, mem_discarded.2 ⟨raw, fun listed => ?_⟩, rfl⟩
    obtain ⟨k, kept, same⟩ := List.mem_map.1 listed
    exact absent ⟨b, there, k, kept, by rw [same]⟩
  · rintro ⟨b, there, d, listed, rfl⟩
    obtain ⟨raw, absent⟩ := mem_discarded.1 listed
    refine ⟨⟨b, there, d, raw, rfl⟩, ?_⟩
    rintro ⟨block, member, k, kept, same⟩
    obtain ⟨task, name⟩ := Prod.mk.inj same
    have equal := List.inj_on_of_nodup_map started member there task
    rw [equal] at kept
    exact absent (List.mem_map.2 ⟨k, kept, name⟩)

theorem mem_successful (id : Bytes) : id ∈ successful (turnsLog asked keywords seed blocks result) ↔
    ∃ b ∈ blocks, b.finding.outcome = .success ∧ b.task.id = id := by
  have outcome : ∀ b : Block,
    (stringField "outcome" (judgeResult b.task b.raw b.finding) == ascii "success") = true ↔
      b.finding.outcome = .success := by
    intro b
    have read : stringField "outcome" (judgeResult b.task b.raw b.finding) =
      outcomeToString b.finding.outcome := rfl
    rw [read]
    cases b.finding.outcome <;> decide
  unfold successful
  rw [filter_turns asked keywords seed blocks result "judge_result" _ judge_of_block (by decide)
    (by decide), List.mem_map]
  constructor
  · rintro ⟨e, member, rfl⟩
    obtain ⟨listed, success⟩ := List.mem_filter.1 member
    obtain ⟨b, there, rfl⟩ := List.mem_map.1 listed
    exact ⟨b, there, (outcome b).1 success, rfl⟩
  · rintro ⟨b, there, success, rfl⟩
    exact ⟨_, List.mem_filter.2 ⟨List.mem_map_of_mem there, (outcome b).2 success⟩, rfl⟩

end Log

theorem mem_paint {nodes : List Node} {table : Bytes → Status} {n : Node} :
    n ∈ paint nodes table ↔ ∃ m ∈ nodes, n = { m with status := table m.id } := by
  unfold paint
  rw [List.mem_map]
  constructor
  · rintro ⟨m, member, rfl⟩
    exact ⟨m, member, rfl⟩
  · rintro ⟨m, member, rfl⟩
    exact ⟨m, member, rfl⟩

section Tree
variable {nodes others : List Node} {table : Bytes → Status} {g : Graph}

theorem edge_eq (drawn : Drawn nodes table g) :
    Edge g = fun a b => (a, b) ∈ Ancestry.edges Node.id Node.parentId nodes := by
  funext a b
  unfold Edge
  rw [drawn.edges]

theorem isTree_drawn (drawn : Drawn (rootNode :: others) table g) (below : ∀ n ∈ others, n.parentId ≠ none)
    (root : table question = .root) : IsTree g := by
  have only : ∀ n ∈ rootNode :: others, n.parentId = none → n = rootNode := by
    intro n member none
    rcases List.mem_cons.1 member with same | other
    · exact same
    · exact absurd none (below n other)
  refine ⟨?_, ?_, ?_, ?_, ?_⟩
  · rw [drawn.painted, paint_ids]
    exact drawn.distinct
  · refine ⟨{ rootNode with status := table question }, ?_, rfl, rfl, root⟩
    rw [drawn.painted]
    exact mem_paint.2 ⟨rootNode, List.mem_cons_self, rfl⟩
  · rw [drawn.edges]
    exact incoming drawn.distinct (n := rootNode) List.mem_cons_self
  · intro n member apart
    rw [drawn.painted] at member
    obtain ⟨m, listed, rfl⟩ := mem_paint.1 member
    have other : m ∈ others := (List.mem_cons.1 listed).resolve_left fun same =>
      apart (congrArg Node.id same)
    obtain ⟨before, after, split⟩ := List.append_of_mem listed
    obtain ⟨p, early, same⟩ := (drawn.rooted before m after split).resolve_left (below m other)
    refine ⟨p.id, ?_, same, ?_⟩
    · rw [drawn.painted, paint_ids, split]
      exact List.mem_map_of_mem (List.mem_append_left _ early)
    · have edges : (Ancestry.edges Node.id Node.parentId (rootNode :: others)).filter
        (fun e => e.2 = m.id) =
          (m.parentId.map fun p => (p, m.id)).toList := incoming drawn.distinct listed
      rw [same] at edges
      rw [drawn.edges]
      exact edges
  · intro n member
    rw [drawn.painted] at member
    obtain ⟨m, listed, rfl⟩ := mem_paint.1 member
    obtain ⟨r, there, none, path⟩ := reached drawn.rooted m listed
    rw [only r there none] at path
    rw [edge_eq drawn]
    exact path

end Tree

/-! ### The end of a run -/

theorem finish_replayed (result : ResearchResult) (g : Graph) :
    (answerEvents result ++ [complete result]).foldlM applyEvent g = some g := by
  have last : applyEvent g (complete result) = some g := applyEvent_other g _ (by decide)
  unfold answerEvents
  split_ifs
  · rw [List.singleton_append, List.foldlM_cons, applyEvent_other g _ (by decide),
      Option.bind_eq_bind, Option.bind_some,
      List.foldlM_cons, last]
    rfl
  · rw [List.nil_append, List.foldlM_cons, last]
    rfl

theorem whole_partway (root : Root seed) (chronicled : Chronicled parser low seed blocks waiting high)
    {done rest : List Block} (split : blocks = done ++ rest) : Partway parser seed blocks done rest :=
  ⟨split, chronicled.turns, chronicled.earlier, started_ids root chronicled,
    sketch_distinct root chronicled,
    queued_named root chronicled, root⟩

theorem log_drawn (root : Root seed) (chronicled : Chronicled parser low seed blocks waiting high)
    (asked : Bytes) (keywords : List Bytes) (result : ResearchResult) :
    ∃ g table, replay (turnsLog asked keywords seed blocks result) = some g ∧
      Drawn (sketch seed blocks) table g ∧
      Statuses (sketch seed blocks) seed blocks table := by
  obtain ⟨g, table, opened, drawn, first, queued⟩ := opening_drawn root asked keywords
  have start : Statuses (sketch seed blocks) seed [] table := by
    have only : ∀ t ∈ queuedTasks seed [], t = seed := fun t member => by simpa [queuedTasks] using member
    have none : ∀ id, ¬ Leads (sketch seed blocks) [] id := by simp [Leads]
    refine ⟨first, fun t _ led => absurd led (none _), ?_, ?_, by simp⟩
    · intro t _ _ started
      simp [startedNames] at started
    · intro t member _
      rw [only t member]
      exact queued
  obtain ⟨g', table', turns, drawn', statuses⟩ :=
    blocks_drawn (whole_partway root chronicled rfl) drawn start
  refine ⟨g', table', ?_, drawn', statuses⟩
  have split : turnsLog asked keywords seed blocks result =
    (openingEvents asked keywords ++ [EngineLoop.taskQueued seed]) ++
      (blocks.flatMap Block.events ++ (answerEvents result ++ [complete result])) := by
    simp [turnsLog]
  unfold replay
  rw [split, List.foldlM_append, opened, Option.bind_eq_bind, Option.bind_some, List.foldlM_append, turns,
    Option.bind_eq_bind, Option.bind_some]
  exact finish_replayed result g'

section Log
variable (asked : Bytes) (keywords : List Bytes) (result : ResearchResult)
  {table : Bytes → Status} {g : Graph}

/-- A path of edges from a node to a successful task is what the walk up from the task goes through. -/
theorem onAnswer_iff (part : Partway parser seed blocks blocks [])
    (drawn : Drawn (sketch seed blocks) table g) {n : Node}
    (member : n ∈ sketch seed blocks) : OnAnswer (turnsLog asked keywords seed blocks result) g n.id ↔
      Leads (sketch seed blocks) blocks n.id := by
  have distinct := part.distinct
  unfold OnAnswer Leads
  rw [edge_eq drawn]
  constructor
  · rintro ⟨s, succeeded, path⟩
    obtain ⟨b, there, success, rfl⟩ := (mem_successful asked keywords seed blocks result s).1 succeeded
    have task := taskNode_mem (part.done_queued there)
    refine ⟨b, there, success, ?_⟩
    rcases Relation.reflTransGen_iff_eq_or_transGen.1 path with same | path
    · exact .inl same.symm
    · exact .inr ⟨n, member, rfl, (above_edges distinct member task).2 path⟩
  · rintro ⟨b, there, success, same | ⟨m, listed, same, high⟩⟩
    · refine ⟨b.task.id, (mem_successful asked keywords seed blocks result _).2
        ⟨b, there, success, rfl⟩, ?_⟩
      rw [same]
    · have task := taskNode_mem (part.done_queued there)
      refine ⟨b.task.id, (mem_successful asked keywords seed blocks result _).2
        ⟨b, there, success, rfl⟩, ?_⟩
      rw [← same]
      exact ((above_edges distinct listed task).1 high).to_reflTransGen

/-- The names of the nodes are those of the root, of the tasks and of the directions that were discarded. -/
theorem mem_sketch_ids (id : Bytes) : id ∈ (sketch seed blocks).map Node.id ↔
    id = question ∨ id ∈ (queuedTasks seed blocks).map Task.id ∨ ∃ b ∈ blocks, ∃ d ∈ discarded b,
        d.id = id := by
  have ids : (sketch seed blocks).map Node.id = question :: seed.id ::
      blocks.flatMap fun b => (discarded b).map Task.id ++ b.queued.map Task.id := by
    unfold sketch
    rw [List.map_cons, List.map_cons, List.map_flatMap]
    simp only [blockNodes_ids]
    rfl
  rw [ids, queuedTasks, List.map_cons, List.map_flatMap]
  simp only [List.mem_cons, List.mem_flatMap, List.mem_append, List.mem_map]
  constructor
  · rintro (root | first | ⟨b, there, listed | listed⟩)
    · exact .inl root
    · exact .inr (.inl (.inl first))
    · exact .inr (.inr ⟨b, there, listed⟩)
    · exact .inr (.inl (.inr ⟨b, there, listed⟩))
  · rintro (root | (first | ⟨b, there, listed⟩) | ⟨b, there, listed⟩)
    · exact .inl root
    · exact .inr (.inl first)
    · exact .inr (.inr ⟨b, there, .inr listed⟩)
    · exact .inr (.inr ⟨b, there, .inl listed⟩)

theorem sketch_below (part : Partway parser seed blocks blocks []) :
    ∀ n ∈ taskNode seed :: blocks.flatMap blockNodes, n.parentId ≠ none := by
  have task : ∀ t, (taskNode t).parentId ≠ none := by
    intro t none
    have named : (taskNode t).parentId = some (parentOf t) := if_neg (parentOf_ne t)
    rw [named] at none
    cases none
  intro n member none
  rcases List.mem_cons.1 member with rfl | later
  · exact task seed none
  · obtain ⟨b, there, listed⟩ := List.mem_flatMap.1 later
    rcases List.mem_append.1 listed with pruned | queued
    · obtain ⟨d, -, rfl⟩ := List.mem_map.1 pruned
      have named : (discardNode b d).parentId = some b.task.id :=
        if_neg (part.named _ (part.done_queued there))
      rw [named] at none
      cases none
    · obtain ⟨t, -, rfl⟩ := List.mem_map.1 queued
      exact task t none

end Log

theorem log_agrees (root : Root seed) (chronicled : Chronicled parser low seed blocks waiting high)
    (asked : Bytes) (keywords : List Bytes) (result : ResearchResult) :
    ∃ g, replay (turnsLog asked keywords seed blocks result) = some g ∧
      Agrees (turnsLog asked keywords seed blocks result) g := by
  have part : Partway parser seed blocks blocks [] := whole_partway root chronicled (by simp)
  obtain ⟨g, table, replayed, drawn, statuses⟩ := log_drawn root chronicled asked keywords result
  have discards := mem_discards asked keywords seed blocks result part.started
  have painted : ∀ n ∈ g.nodes, ∃ m ∈ sketch seed blocks, m.id = n.id ∧ n.status = table n.id := by
    intro n member
    rw [drawn.painted] at member
    obtain ⟨m, listed, rfl⟩ := mem_paint.1 member
    exact ⟨m, listed, rfl, rfl⟩
  have tasks : ∀ id, id ∈ idsOf "task_queued" (turnsLog asked keywords seed blocks result) →
      ∃ t ∈ queuedTasks seed blocks, t.id = id := by
    intro id member
    rw [queued_log] at member
    exact List.mem_map.1 member
  refine ⟨g, replayed, isTree_drawn drawn (sketch_below part) statuses.root, ?_, ?_, ?_, ?_, ?_, ?_⟩
  · intro id
    rw [drawn.painted, paint_ids, mem_sketch_ids, queued_log]
    refine or_congr_right (or_congr_right ?_)
    rw [List.mem_map]
    constructor
    · rintro ⟨b, there, d, listed, rfl⟩
      exact ⟨(b.task.id, d.id), (discards _).2 ⟨b, there, d, listed, rfl⟩, rfl⟩
    · rintro ⟨pair, listed, rfl⟩
      obtain ⟨b, there, d, pruned, same⟩ := (discards pair).1 listed
      exact ⟨b, there, d, pruned, by rw [same]⟩
  · intro q member queued
    have filtered := List.mem_filter.2 ⟨member, queued⟩
    rw [tasks_log] at filtered
    obtain ⟨t, listed, rfl⟩ := List.mem_map.1 filtered
    refine ⟨{ taskNode t with status := table t.id }, ?_, rfl, ?_, rfl⟩
    · rw [drawn.painted]
      exact mem_paint.2 ⟨taskNode t, taskNode_mem listed, rfl⟩
    · exact if_neg (parentOf_ne t)
  · intro pair listed
    obtain ⟨b, there, d, pruned, rfl⟩ := (discards pair).1 listed
    refine ⟨{ discardNode b d with status := table d.id }, ?_, rfl, ?_, statuses.rejected b there d pruned⟩
    · rw [drawn.painted]
      exact mem_paint.2 ⟨discardNode b d, discardNode_mem there pruned, rfl⟩
    · exact if_neg (part.named _ (part.done_queued there))
  · intro n member queued led
    obtain ⟨m, listed, same, status⟩ := painted n member
    obtain ⟨t, there, name⟩ := tasks _ queued
    rw [← same] at led
    have leads := (onAnswer_iff asked keywords result part drawn listed).1 led
    rw [same, ← name] at leads
    rw [status, ← name]
    exact statuses.answer t there leads
  · intro n member started unled
    obtain ⟨m, listed, same, status⟩ := painted n member
    rw [started_log] at started
    obtain ⟨b, there, name⟩ := List.mem_map.1 started
    rw [← same, onAnswer_iff asked keywords result part drawn listed, same, ← name] at unled
    rw [status, ← name]
    exact statuses.explored _ (part.done_queued there) unled (List.mem_map_of_mem there)
  · intro n member queued idle
    obtain ⟨m, -, same, status⟩ := painted n member
    obtain ⟨t, there, name⟩ := tasks _ queued
    rw [started_log, ← name] at idle
    rw [status, ← name]
    exact statuses.queued t there idle

theorem unseeded_agrees (asked : Bytes) (keywords : List Bytes) (result : ResearchResult) :
    ∃ g, replay (openingEvents asked keywords ++ [complete result]) = some g ∧
      Agrees (openingEvents asked keywords ++ [complete result]) g := by
  have quiet : ∀ name : String, ascii name ∉ [ascii "question", ascii "keywords_extracted",
    ascii "complete"] →
      (openingEvents asked keywords ++ [complete result]).filter (told name) = [] := by
    intro name other
    simp only [List.mem_cons, List.not_mem_nil, or_false, not_or] at other
    obtain ⟨question, extracted, completed⟩ := other
    refine List.filter_eq_nil_iff.2 fun e member => ?_
    rcases List.mem_append.1 member with opened | finished
    · simpa using opening_told name ⟨Ne.symm question, Ne.symm extracted⟩ asked keywords e opened
    · simpa using complete_told name (Ne.symm completed) result e finished
  have queued : idsOf "task_queued" (openingEvents asked keywords ++ [complete result]) = [] := by
    unfold idsOf
    rw [quiet _ (by decide)]
    rfl
  have started : idsOf "task_started" (openingEvents asked keywords ++ [complete result]) = [] := by
    unfold idsOf
    rw [quiet _ (by decide)]
    rfl
  have none : discards (openingEvents asked keywords ++ [complete result]) = [] := by
    unfold discards proposals
    rw [quiet _ (by decide)]
    rfl
  refine ⟨addNode {} question [] (-1) (ascii "question") .root, ?_, isTree_drawn root_drawn
    (by simp) rfl, ?_, ?_, ?_,
    ?_, ?_, ?_⟩
  · have last : applyEvent (addNode {} question [] (-1) (ascii "question") .root) (complete result) =
        some (addNode {} question [] (-1) (ascii "question") .root) := applyEvent_other _ _ (by decide)
    unfold replay
    rw [List.foldlM_append, opening_replayed, Option.bind_eq_bind, Option.bind_some, List.foldlM_cons, last]
    rfl
  · intro id
    rw [queued, none, root_drawn.painted, paint_ids]
    simp [rootNode]
  · intro q member kind
    have filtered := List.mem_filter.2 ⟨member, kind⟩
    rw [quiet _ (by decide)] at filtered
    cases filtered
  · rw [none]
    simp
  · rw [queued]
    simp
  · rw [started]
    simp
  · rw [queued]
    simp

/-- The page's graph of every run agrees with its log, unless the run comes to a string that is not
UTF-8. -/
theorem graph_agrees (engine : Engine) (env : Environment) (asked : Bytes) (w : World) :
    Runs (research engine env asked) { w with events := [] }
      (fun _ w' => ∃ g, replay w'.events = some g ∧ Agrees w'.events g) fun e _ => e = .type := by
  apply (research_tale engine env asked w).weaken
  intro result w' tale
  generalize w'.events = events at tale ⊢
  cases tale with
  | unseeded keywords _ _ => exact unseeded_agrees asked keywords result
  | seeded keywords low seed blocks waiting high _ root chronicled _ =>
    exact log_agrees root chronicled asked keywords result

end CppCoder.GraphAgreement
