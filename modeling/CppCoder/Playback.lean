import CppCoder.Drawing
import CppCoder.EventProtocol

/-! Playback of the events of a research run: turn by turn the page draws the nodes of the run, and the
statuses of the tasks follow what became of them. -/

namespace CppCoder.Playback
open Support Utf8 JsonValue Program Ancestry CppCoder.Types Session ResearchEngine Numbering
  Chronicle EventProtocol
open Viewer Drawing

variable {parser : Parser} {low high : Nat} {seed : Task} {blocks : List Block} {waiting : List Task}

/-! ### Names -/

theorem nodup_flatMap_of_subset {α β : Type} {items : List β} {f g : β → List α}
    (distinct : (items.flatMap f).Nodup) (subset : ∀ item ∈ items, ∀ a ∈ g item, a ∈ f item)
    (each : ∀ item ∈ items, (g item).Nodup) :
    (items.flatMap g).Nodup := by
  refine List.nodup_flatMap.2 ⟨each, (List.nodup_flatMap.1 distinct).2.imp_of_mem ?_⟩
  intro a b first second apart x one two
  exact apart (subset a first x one) (subset b second x two)

theorem queued_kept (chronicled : Chronicled parser low seed blocks waiting high) :
    ∀ b ∈ blocks, ∀ t ∈ b.queued, t.id ∈ b.finding.suggestedDirections.map Task.id ∧
      t.id ∈ b.raw.suggestedDirections.map Task.id := by
  intro b there t member
  have turn := chronicled.turns b there
  obtain ⟨d, kept, rfl⟩ := turn.children t member
  obtain ⟨reply, judged⟩ := turn.judged
  refine ⟨List.mem_map.2 ⟨d, kept, rfl⟩, ?_⟩
  rw [judged] at kept
  exact List.mem_map.2 ⟨d, (Judge.judged_judgement parser b.raw reply).kept d kept, rfl⟩

theorem sketch_distinct (root : Root seed) (chronicled : Chronicled parser low seed blocks waiting high) :
    ((sketch seed blocks).map Node.id).Nodup := by
  have names : (blocks.flatMap fun b => b.raw.suggestedDirections.map Task.id).Nodup := by
    have all := chronicled.numbered.nodup
    unfold proposed at all
    rwa [List.map_flatMap] at all
  have queued : ∀ b ∈ blocks, (b.queued.map Task.id).Nodup := by
    have all := queued_ids root chronicled
    rw [queuedTasks, List.map_cons, List.map_flatMap] at all
    exact (List.nodup_flatMap.1 (List.nodup_cons.1 all).2).1
  have subset : ∀ b ∈ blocks, ∀ id ∈ (blockNodes b).map Node.id, id ∈ b.raw.suggestedDirections.map
      Task.id := by
    intro b there id member
    rw [blockNodes_ids, List.mem_append] at member
    rcases member with pruned | kept
    · obtain ⟨d, listed, rfl⟩ := List.mem_map.1 pruned
      exact List.mem_map_of_mem (List.mem_filter.1 listed).1
    · obtain ⟨t, listed, rfl⟩ := List.mem_map.1 kept
      exact (queued_kept chronicled b there t listed).2
  have below : (blocks.flatMap fun b => (blockNodes b).map Node.id).Nodup := by
    refine nodup_flatMap_of_subset names subset fun b there => ?_
    rw [blockNodes_ids, List.nodup_append]
    refine ⟨((List.nodup_flatMap.1 names).1 b there).sublist (List.filter_sublist.map _),
      queued b there, ?_⟩
    intro id pruned other kept same
    obtain ⟨d, listed, rfl⟩ := List.mem_map.1 pruned
    obtain ⟨t, member, rfl⟩ := List.mem_map.1 kept
    have absent : d.id ∉ b.finding.suggestedDirections.map Task.id :=
      by simpa using (List.mem_filter.1 listed).2
    exact absent (same ▸ (queued_kept chronicled b there t member).1)
  have numbered : ∀ id ∈ blocks.flatMap fun b => (blockNodes b).map Node.id, ∃ n, id = nameOf n := by
    intro id member
    obtain ⟨b, there, listed⟩ := List.mem_flatMap.1 member
    obtain ⟨d, raw, rfl⟩ := List.mem_map.1 (subset b there id listed)
    exact chronicled.numbered.names d (List.mem_flatMap.2 ⟨b, there, raw⟩)
  have ids : (sketch seed blocks).map Node.id =
      question :: seed.id :: blocks.flatMap fun b => (blockNodes b).map Node.id := by
    unfold sketch
    rw [List.map_cons, List.map_cons, List.map_flatMap]
    rfl
  rw [ids, List.nodup_cons, List.nodup_cons]
  refine ⟨?_, ?_, below⟩
  · intro member
    rcases List.mem_cons.1 member with same | later
    · rw [root.id] at same
      revert same
      decide
    · obtain ⟨n, same⟩ := numbered _ later
      exact ne_nameOf _ (by decide) n same
  · intro member
    obtain ⟨n, same⟩ := numbered _ member
    exact ne_nameOf _ (by decide) n (root.id.symm.trans same)

theorem queued_named (root : Root seed) (chronicled : Chronicled parser low seed blocks waiting high) :
    ∀ t ∈ queuedTasks seed blocks, t.id ≠ [] := by
  intro t member
  rcases queued_origin chronicled t member with rfl | ⟨d, raw, same, -⟩
  · rw [root.id]
    decide
  · obtain ⟨n, numbered⟩ := chronicled.numbered.names d raw
    rw [same, numbered]
    exact (ne_nameOf _ (by decide) n).symm

theorem taskNode_mem {t : Task} (member : t ∈ queuedTasks seed blocks) :
    taskNode t ∈ sketch seed blocks := by
  rcases List.mem_cons.1 member with rfl | later
  · exact List.mem_cons_of_mem _ List.mem_cons_self
  · obtain ⟨b, there, queued⟩ := List.mem_flatMap.1 later
    refine List.mem_cons_of_mem _ (List.mem_cons_of_mem _ (List.mem_flatMap.2 ⟨b, there, ?_⟩))
    exact List.mem_append_right _ (List.mem_map_of_mem queued)

theorem discardNode_mem {b : Block} (there : b ∈ blocks) {d : Task} (member : d ∈ discarded b) :
    discardNode b d ∈ sketch seed blocks := by
  refine List.mem_cons_of_mem _ (List.mem_cons_of_mem _ (List.mem_flatMap.2 ⟨b, there, ?_⟩))
  exact List.mem_append_left _ (List.mem_map_of_mem member)

theorem names_apart (distinct : ((sketch seed blocks).map Node.id).Nodup) {m n : Node}
    (one : m ∈ sketch seed blocks) (two : n ∈ sketch seed blocks)
    (kinds : m.status ≠ n.status) : m.id ≠ n.id :=
  fun same => kinds (congrArg Node.status (item_unique distinct one two same))

theorem sketch_append (seed : Task) (first second : List Block) :
    sketch seed (first ++ second) = sketch seed first ++ second.flatMap blockNodes := by
  simp [sketch]

theorem root_drawn : Drawn [rootNode] (fun _ => .root)
    (addNode {} question [] (-1) (ascii "question") .root) := by
  refine ⟨rfl, rfl, ?_, by simp⟩
  intro before n after split
  rcases before with _ | ⟨first, rest⟩
  · obtain ⟨rfl, -⟩ := List.cons.inj split
    exact .inl rfl
  · simp at split

theorem opening_replayed (asked : Bytes) (keywords : List Bytes) :
    (openingEvents asked keywords).foldlM applyEvent {} =
    some (addNode {} question [] (-1) (ascii "question") .root) := by
  have first : applyEvent {} (event "question" [("question", .str asked)]) =
      some (addNode {} question [] (-1) (ascii "question") .root) := by
    unfold applyEvent
    rw [eventName_event, if_pos rfl]
  rw [openingEvents, List.foldlM_cons, first, Option.bind_eq_bind, Option.bind_some, List.foldlM_cons,
    applyEvent_other _ _ (by decide)]
  rfl

theorem opening_drawn (root : Root seed) (asked : Bytes) (keywords : List Bytes) :
    ∃ g table, (openingEvents asked keywords ++ [EngineLoop.taskQueued seed]).foldlM applyEvent
      {} = some g ∧
      Drawn (sketch seed []) table g ∧ table question = .root ∧ table seed.id = .queued := by
  have name : ascii "seed" ≠ question := by decide
  obtain ⟨g, played, drawn⟩ := queued_drawn root_drawn List.mem_cons_self [seed]
    (by simp [parentOf, root.parentId, rootNode]) (by simp [root.depth, rootNode, newNode])
    (by simpa [rootNode, root.id] using name.symm)
  refine ⟨g, _, ?_, drawn, ?_, ?_⟩
  · rw [List.foldlM_append, opening_replayed, Option.bind_eq_bind, Option.bind_some]
    exact played
  · have apart : question ∉ [seed].map Task.id := by simpa [root.id] using name.symm
    exact repaint_of_not_mem apart
  · exact if_pos (by simp)

/-! ### Statuses -/

def startedNames (done : List Block) : List Bytes := done.map fun b => b.task.id

/-- A task succeeded, or one below it did. -/
def Leads (all : List Node) (done : List Block) (id : Bytes) : Prop :=
  ∃ b ∈ done, b.finding.outcome = .success ∧
    (id = b.task.id ∨ ∃ m ∈ all, m.id = id ∧ Over all m (taskNode b.task))

structure Statuses (all : List Node) (seed : Task) (done : List Block) (table : Bytes → Status) : Prop where
  root : table question = .root
  answer : ∀ t ∈ queuedTasks seed done, Leads all done t.id → table t.id = .answer
  explored : ∀ t ∈ queuedTasks seed done, ¬ Leads all done t.id → t.id ∈ startedNames done →
    table t.id = .explored
  queued : ∀ t ∈ queuedTasks seed done, t.id ∉ startedNames done → table t.id = .queued
  rejected : ∀ b ∈ done, ∀ d ∈ discarded b, table d.id = .rejected

theorem Leads.append {all : List Node} {done : List Block} {b : Block} {id : Bytes} :
    Leads all (done ++ [b]) id ↔ Leads all done id ∨ b.finding.outcome = .success ∧
      (id = b.task.id ∨ ∃ m ∈ all, m.id = id ∧ Over all m (taskNode b.task)) := by
  unfold Leads
  constructor
  · rintro ⟨block, member, holds⟩
    rcases List.mem_append.1 member with old | new
    · exact .inl ⟨block, old, holds⟩
    · rw [List.mem_singleton.1 new] at holds
      exact .inr holds
  · rintro (⟨block, member, holds⟩ | holds)
    · exact ⟨block, List.mem_append_left _ member, holds⟩
    · exact ⟨b, List.mem_append_right _ (List.mem_singleton_self b), holds⟩

theorem Statuses.markable {all : List Node} {done : List Block} {table : Bytes → Status}
    (statuses : Statuses all seed done table) {t : Task} (member : t ∈ queuedTasks seed done) :
    marked (table t.id) = .answer := by
  by_cases led : Leads all done t.id
  · rw [statuses.answer t member led]
    rfl
  · by_cases started : t.id ∈ startedNames done
    · rw [statuses.explored t member led started]
      rfl
    · rw [statuses.queued t member started]
      rfl

structure Partway (parser : Parser) (seed : Task) (blocks done rest : List Block) : Prop where
  split : blocks = done ++ rest
  turns : ∀ b ∈ blocks, Turn parser b
  earlier : ∀ before b after, blocks = before ++ b :: after → b.task ∈ queuedTasks seed before
  started : (blocks.map fun b => b.task.id).Nodup
  distinct : ((sketch seed blocks).map Node.id).Nodup
  named : ∀ t ∈ queuedTasks seed blocks, t.id ≠ []
  root : Root seed

section Partway
variable {done rest : List Block} (part : Partway parser seed blocks done rest)

include part

theorem Partway.subset : ∀ t ∈ queuedTasks seed done, t ∈ queuedTasks seed blocks := by
  intro t member
  rw [part.split]
  rcases List.mem_cons.1 member with rfl | later
  · exact List.mem_cons_self
  · apply List.mem_cons_of_mem _
    rw [List.flatMap_append]
    exact List.mem_append_left _ later

theorem Partway.done_queued {b : Block} (member : b ∈ done) : b.task ∈ queuedTasks seed done := by
  obtain ⟨before, after, rfl⟩ := List.append_of_mem member
  have early := part.earlier before b (after ++ rest) (by rw [part.split]; simp)
  rcases List.mem_cons.1 early with same | later
  · rw [same]
    exact List.mem_cons_self
  · apply List.mem_cons_of_mem _
    rw [List.flatMap_append]
    exact List.mem_append_left _ later

theorem Partway.over_done {m n : Node} (high : Over (sketch seed blocks) m n) :
    ∀ t ∈ queuedTasks seed done, n = taskNode t → m.id = question ∨ m.id ∈ startedNames done := by
  have parents : ∀ p, ∀ t ∈ queuedTasks seed done, Parent Node.id Node.parentId (sketch seed blocks)
    p (taskNode t) →
      p = rootNode ∨ ∃ b ∈ done, p = taskNode b.task := by
    intro p t member step
    have names : p.id = parentOf t := by
      have same : (taskNode t).parentId = some (parentOf t) := if_neg (parentOf_ne t)
      exact Option.some.inj (step.2.symm.trans same)
    rcases List.mem_cons.1 member with rfl | later
    · left
      apply item_unique part.distinct step.1 List.mem_cons_self
      rw [names, parentOf, if_pos part.root.parentId]
      rfl
    · right
      obtain ⟨b, there, queued⟩ := List.mem_flatMap.1 later
      have whole : b ∈ blocks := by
        rw [part.split]
        exact List.mem_append_left _ there
      obtain ⟨d, -, rfl⟩ := (part.turns b whole).children t queued
      have task := part.subset _ (part.done_queued there)
      refine ⟨b, there, item_unique part.distinct step.1 (taskNode_mem task) ?_⟩
      rw [names]
      exact if_neg (part.named _ task)
  induction high with
  | single step =>
    rintro t member rfl
    rcases parents m t member step with rfl | ⟨b, there, rfl⟩
    · exact .inl rfl
    · exact .inr (List.mem_map_of_mem (f := fun b : Block => b.task.id) there)
  | tail above step ih =>
    rintro t member rfl
    rcases parents _ t member step with rfl | ⟨b, there, rfl⟩
    · exact absurd above (above_root rfl m)
    · exact ih b.task (part.done_queued there) rfl

theorem Partway.leads_started {t : Task} (member : t ∈ queuedTasks seed done)
    (leads : Leads (sketch seed blocks) done t.id) : t.id ∈ startedNames done := by
  obtain ⟨b, there, -, same | ⟨m, -, same, high⟩⟩ := leads
  · rw [same]
    exact List.mem_map_of_mem (f := fun b : Block => b.task.id) there
  · rcases part.over_done high b.task (part.done_queued there) rfl with root | started
    · have node := taskNode_mem (part.subset t member)
      exact absurd (same.symm.trans root) (names_apart part.distinct node List.mem_cons_self nofun)
    · exact same ▸ started

end Partway

/-! ### One more turn -/

section Turn
variable {done rest : List Block} {b : Block} {table table' : Bytes → Status}
  (part : Partway parser seed blocks done (b :: rest))

include part

theorem Partway.next : Partway parser seed blocks (done ++ [b]) rest :=
  ⟨by rw [part.split]; simp, part.turns, part.earlier, part.started, part.distinct, part.named, part.root⟩

theorem Partway.task_queued : b.task ∈ queuedTasks seed done := part.earlier done b rest part.split

theorem Partway.task_fresh : b.task.id ∉ startedNames done := by
  have all := part.started
  rw [part.split, List.map_append, List.map_cons, List.nodup_append] at all
  intro there
  exact all.2.2 _ there _ List.mem_cons_self rfl

theorem Partway.fresh :
    ((sketch seed done).map Node.id ++ ((discarded b).map Task.id ++ b.queued.map Task.id)).Nodup := by
  have all := part.distinct
  rw [part.split, sketch_append, List.flatMap_cons, ← List.append_assoc, List.map_append,
    List.map_append, blockNodes_ids] at all
  exact (List.nodup_append.1 all).1

omit part in
theorem old_names {t : Task} (member : t ∈ queuedTasks seed done) : t.id ∈ (sketch seed done).map Node.id :=
  List.mem_map.2 ⟨taskNode t, taskNode_mem member, rfl⟩

theorem Partway.undiscarded {id : Bytes} (old : id ∈ (sketch seed done).map Node.id) :
    id ∉ (discarded b).map Task.id := by
  intro there
  exact (List.nodup_append.1 part.fresh).2.2 id old id (List.mem_append_left _ there) rfl

theorem Partway.verdict_old {id : Bytes} (old : id ∈ (sketch seed done).map Node.id)
    (apart : id ≠ b.task.id) :
    verdictTable b table id = table id := by
  rw [verdictTable, repaint_of_not_mem (part.undiscarded old), Function.update_of_ne apart]

theorem Partway.verdict_task : verdictTable b table b.task.id = .explored := by
  have old := old_names part.task_queued
  rw [verdictTable, repaint_of_not_mem (part.undiscarded old), Function.update_self]

omit part in
theorem verdict_discarded {d : Task} (member : d ∈ discarded b) : verdictTable b table d.id = .rejected :=
  repaint_of_mem (List.mem_map_of_mem member)

theorem Partway.discarded_apart {block : Block} (there : block ∈ done ++ [b]) {d t : Task}
    (member : d ∈ discarded block) (listed : t ∈ queuedTasks seed blocks) : d.id ≠ t.id := by
  have whole : block ∈ blocks := by
    have split := part.next.split
    rw [split]
    exact List.mem_append_left _ there
  exact names_apart part.distinct (discardNode_mem whole member) (taskNode_mem listed) nofun

omit part in
theorem startedNames_append (done : List Block) (b : Block) : startedNames (done ++ [b]) =
    startedNames done ++ [b.task.id] := by
  simp [startedNames]

theorem Partway.root_old : question ∈ (sketch seed done).map Node.id ∧ question ≠ b.task.id := by
  refine ⟨List.mem_map.2 ⟨rootNode, List.mem_cons_self, rfl⟩, ?_⟩
  have node := taskNode_mem (part.subset _ part.task_queued)
  exact names_apart part.distinct List.mem_cons_self node nofun

theorem Partway.unqueued {id : Bytes} (old : id ∈ (sketch seed done).map Node.id) :
    id ∉ b.queued.map Task.id := by
  intro listed
  exact (List.nodup_append.1 part.fresh).2.2 id old id (List.mem_append_right _ listed) rfl

theorem Partway.queued_unstarted : ∀ t ∈ b.queued, t.id ∉ startedNames (done ++ [b]) := by
  intro t member there
  obtain ⟨block, finished, same⟩ := List.mem_map.1 there
  have earlier : block.task ∈ queuedTasks seed done := by
    rcases List.mem_append.1 finished with before | now
    · exact part.done_queued before
    · rw [List.mem_singleton.1 now]
      exact part.task_queued
  have old : t.id ∈ (sketch seed done).map Node.id := same ▸ old_names earlier
  exact part.unqueued old (List.mem_map_of_mem member)

theorem Partway.statuses_plain (statuses : Statuses (sketch seed blocks) seed done table)
    (plain : b.finding.outcome ≠ .success)
    (turned : table' = repaint (verdictTable b table) (b.queued.map Task.id) .queued) :
    Statuses (sketch seed blocks) seed (done ++ [b]) table' := by
  have leads : ∀ id, Leads (sketch seed blocks) (done ++ [b]) id ↔ Leads (sketch seed blocks) done id := by
    intro id
    rw [Leads.append]
    exact or_iff_left fun success => plain success.1
  have old : ∀ id ∈ (sketch seed done).map Node.id, id ≠ b.task.id → table' id = table id := by
    intro id there apart
    rw [turned, repaint_of_not_mem (part.unqueued there)]
    exact part.verdict_old there apart
  have task : table' b.task.id = .explored := by
    rw [turned, repaint_of_not_mem (part.unqueued (old_names part.task_queued))]
    exact part.verdict_task
  have unstarted := part.queued_unstarted
  have next := part.next
  refine ⟨?_, ?_, ?_, ?_, ?_⟩
  · rw [old question part.root_old.1 part.root_old.2]
    exact statuses.root
  · intro t member led
    have started := next.leads_started member led
    rw [queuedTasks_append] at member
    rcases List.mem_append.1 member with before | now
    · have before' := (leads t.id).1 led
      have apart : t.id ≠ b.task.id :=
        fun same => part.task_fresh (same ▸ part.leads_started before before')
      rw [old t.id (old_names before) apart]
      exact statuses.answer t before before'
    · exact absurd started (unstarted t now)
  · intro t member unled started
    rw [queuedTasks_append] at member
    rcases List.mem_append.1 member with before | now
    · by_cases same : t.id = b.task.id
      · rw [same]
        exact task
      · rw [startedNames_append, List.mem_append, List.mem_singleton, or_iff_left same] at started
        rw [old t.id (old_names before) same]
        exact statuses.explored t before (fun led => unled ((leads t.id).2 led)) started
    · exact absurd started (unstarted t now)
  · intro t member idle
    rw [queuedTasks_append] at member
    rcases List.mem_append.1 member with before | now
    · rw [startedNames_append, List.mem_append, List.mem_singleton, not_or] at idle
      rw [old t.id (old_names before) idle.2]
      exact statuses.queued t before idle.1
    · rw [turned, repaint_of_mem (List.mem_map_of_mem now)]
  · intro block member d listed
    rcases List.mem_append.1 member with before | now
    · have known : d.id ∈ (sketch seed done).map Node.id :=
        List.mem_map.2 ⟨_, discardNode_mem before listed, rfl⟩
      rw [old d.id known (part.discarded_apart member listed (part.subset _ part.task_queued))]
      exact statuses.rejected block before d listed
    · rw [List.mem_singleton.1 now] at listed
      have waiting : d.id ∉ b.queued.map Task.id := by
        have both := (List.nodup_append.1 part.fresh).2.1
        intro there
        exact (List.nodup_append.1 both).2.2 _ (List.mem_map_of_mem listed) _ there rfl
      rw [turned, repaint_of_not_mem waiting]
      exact verdict_discarded listed

theorem Partway.next_distinct : ((sketch seed (done ++ [b])).map Node.id).Nodup := by
  have all := part.distinct
  rw [part.next.split, sketch_append, List.map_append] at all
  exact (List.nodup_append.1 all).1

omit part in
theorem queuedTasks_turn (none : b.queued = []) : queuedTasks seed (done ++ [b]) = queuedTasks seed done := by
  rw [queuedTasks_append, none, List.append_nil]

omit part in
theorem taskNode_turn {t : Task} (member : t ∈ queuedTasks seed done) :
    taskNode t ∈ sketch seed (done ++ [b]) := by
  apply taskNode_mem
  rw [queuedTasks_append]
  exact List.mem_append_left _ member

theorem Partway.over_task (rooted : Rooted Node.id Node.parentId (sketch seed (done ++ [b]))) (m : Node) :
    Over (sketch seed blocks) m (taskNode b.task) ↔
      Over (sketch seed (done ++ [b])) m (taskNode b.task) := by
  refine above_part rooted ?_ part.distinct part.next_distinct _ (taskNode_turn part.task_queued) m
  intro n member
  rw [part.next.split, sketch_append]
  exact List.mem_append_left _ member

section Crown
variable (rooted : Rooted Node.id Node.parentId (sketch seed (done ++ [b])))
  (crowned : Crowned (sketch seed (done ++ [b])) b.task (verdictTable b table) table')

include rooted crowned

theorem Partway.crowned_kept {n : Node} (member : n ∈ sketch seed (done ++ [b])) (apart : n.id ≠ b.task.id)
    (low : ¬ Over (sketch seed blocks) n (taskNode b.task)) : table' n.id = verdictTable b table n.id := by
  refine crowned.other n.id apart fun m there same => ?_
  rw [item_unique part.next_distinct there member same, ← part.over_task rooted]
  exact low

theorem Partway.crowned_lowered {t : Task} (member : t ∈ queuedTasks seed done) (apart : t.id ≠ b.task.id)
    (low : ¬ Over (sketch seed blocks) (taskNode t) (taskNode b.task)) : table' t.id = table t.id := by
  have kept := part.crowned_kept rooted crowned (taskNode_turn member) apart low
  exact kept.trans (part.verdict_old (old_names member) apart)

theorem Partway.crowned_raised (statuses : Statuses (sketch seed blocks) seed done table) {t : Task}
    (member : t ∈ queuedTasks seed done) (apart : t.id ≠ b.task.id)
    (high : Over (sketch seed blocks) (taskNode t) (taskNode b.task)) : table' t.id = .answer := by
  calc
    table' t.id = marked (verdictTable b table t.id) :=
      crowned.above _ (taskNode_turn member) ((part.over_task rooted _).1 high) apart
    _ = marked (table t.id) := congrArg marked (part.verdict_old (old_names member) apart)
    _ = .answer := statuses.markable member

end Crown

theorem Partway.discarded_low {block : Block} (there : block ∈ done ++ [b]) {d : Task}
    (listed : d ∈ discarded block) :
    ¬ Over (sketch seed blocks) (discardNode block d) (taskNode b.task) := by
  intro high
  have next := part.next
  have node : discardNode block d ∈ sketch seed (done ++ [b]) := discardNode_mem there listed
  rcases next.over_done high b.task
    (next.done_queued (List.mem_append_right _ List.mem_cons_self)) rfl with root | named
  · exact names_apart part.next_distinct node List.mem_cons_self nofun root
  · obtain ⟨other, before, same⟩ := List.mem_map.1 named
    exact part.discarded_apart there listed (next.subset _ (next.done_queued before)) same.symm

theorem Partway.statuses_success (statuses : Statuses (sketch seed blocks) seed done table)
    (rooted : Rooted Node.id Node.parentId (sketch seed (done ++ [b])))
    (success : b.finding.outcome = .success) (none : b.queued = [])
    (crowned : Crowned (sketch seed (done ++ [b])) b.task (verdictTable b table) table') :
    Statuses (sketch seed blocks) seed (done ++ [b]) table' := by
  have next := part.next
  have queuedNow : queuedTasks seed (done ++ [b]) = queuedTasks seed done := queuedTasks_turn none
  refine ⟨?_, ?_, ?_, ?_, ?_⟩
  · have known : rootNode ∈ sketch seed (done ++ [b]) := List.mem_cons_self
    have verdict : verdictTable b table question = .root := by
      rw [part.verdict_old part.root_old.1 part.root_old.2]
      exact statuses.root
    by_cases high : Over (sketch seed blocks) rootNode (taskNode b.task)
    · have raised := crowned.above rootNode known ((part.over_task rooted _).1 high) part.root_old.2
      exact raised.trans (congrArg marked verdict)
    · exact (part.crowned_kept rooted crowned known part.root_old.2 high).trans verdict
  · intro t member led
    rw [queuedNow] at member
    rcases Leads.append.1 led with before | ⟨-, same | ⟨m, there, same, high⟩⟩
    · by_cases same : t.id = b.task.id
      · rw [same]
        exact crowned.self
      · by_cases high : Over (sketch seed blocks) (taskNode t) (taskNode b.task)
        · exact part.crowned_raised rooted crowned statuses member same high
        · rw [part.crowned_lowered rooted crowned member same high]
          exact statuses.answer t member before
    · rw [same]
      exact crowned.self
    · by_cases equal : t.id = b.task.id
      · rw [equal]
        exact crowned.self
      · have node := taskNode_mem (part.subset t member)
        rw [item_unique part.distinct there node same] at high
        exact part.crowned_raised rooted crowned statuses member equal high
  · intro t member unled started
    rw [queuedNow] at member
    rw [Leads.append, not_or] at unled
    have same : t.id ≠ b.task.id := fun equal => unled.2 ⟨success, .inl equal⟩
    have low : ¬ Over (sketch seed blocks) (taskNode t) (taskNode b.task) := fun high =>
      unled.2 ⟨success, .inr ⟨_, taskNode_mem (part.subset t member), rfl, high⟩⟩
    rw [startedNames_append, List.mem_append, List.mem_singleton, or_iff_left same] at started
    rw [part.crowned_lowered rooted crowned member same low]
    exact statuses.explored t member unled.1 started
  · intro t member idle
    have same : t.id ≠ b.task.id := by
      intro equal
      rw [startedNames_append, equal] at idle
      exact idle (List.mem_append_right _ List.mem_cons_self)
    have low : ¬ Over (sketch seed blocks) (taskNode t) (taskNode b.task) := fun high =>
      idle (next.leads_started member (Leads.append.2 (.inr ⟨success, .inr
        ⟨_, taskNode_mem (next.subset t member), rfl, high⟩⟩)))
    rw [queuedNow] at member
    rw [startedNames_append, List.mem_append, not_or] at idle
    rw [part.crowned_lowered rooted crowned member same low]
    exact statuses.queued t member idle.1
  · intro block member d listed
    have node : discardNode block d ∈ sketch seed (done ++ [b]) := discardNode_mem member listed
    have apart := part.discarded_apart member listed (part.subset _ part.task_queued)
    have still := part.crowned_kept rooted crowned node apart (part.discarded_low member listed)
    apply still.trans
    rcases List.mem_append.1 member with before | now
    · have known : d.id ∈ (sketch seed done).map Node.id :=
        List.mem_map.2 ⟨_, discardNode_mem before listed, rfl⟩
      exact (part.verdict_old known apart).trans (statuses.rejected block before d listed)
    · rw [List.mem_singleton.1 now] at listed
      exact verdict_discarded listed

end Turn

theorem blocks_drawn {rest done : List Block} (part : Partway parser seed blocks done rest) {g : Graph}
    {table : Bytes → Status} (drawn : Drawn (sketch seed done) table g)
    (statuses : Statuses (sketch seed blocks) seed done table) :
    ∃ g' table', (rest.flatMap Block.events).foldlM applyEvent g = some g' ∧
      Drawn (sketch seed blocks) table' g' ∧ Statuses (sketch seed blocks) seed blocks table' := by
  induction rest generalizing done g table with
  | nil =>
    have all : blocks = done := by rw [part.split, List.append_nil]
    refine ⟨g, table, rfl, ?_, ?_⟩
    · rw [all]
      exact drawn
    · rw [all] at statuses ⊢
      exact statuses
  | cons b rest ih =>
    have whole : b ∈ blocks := by
      rw [part.split]
      exact List.mem_append_right _ List.mem_cons_self
    have turn := part.turns b whole
    have fresh := part.fresh
    rw [← blockNodes_ids] at fresh
    obtain ⟨g1, table1, played, next, turned⟩ := block_drawn drawn turn
      (part.named _ (part.subset _ part.task_queued)) (taskNode_mem part.task_queued) fresh
    have same : sketch seed (done ++ [b]) = sketch seed done ++ blockNodes b := by
      rw [sketch_append]
      simp
    rw [← same] at next turned
    have later : Statuses (sketch seed blocks) seed (done ++ [b]) table1 := by
      by_cases success : b.finding.outcome = .success
      · exact part.statuses_success statuses next.rooted success (turn.none_queued success)
          (turned.success success)
      · exact part.statuses_plain statuses success (turned.plain success)
    obtain ⟨g2, table2, further, final, settled⟩ := ih part.next next later
    refine ⟨g2, table2, ?_, final, settled⟩
    rw [List.flatMap_cons, List.foldlM_append, played]
    exact further

end CppCoder.Playback
