import CppCoder.Viewer

/-! How the graph grows with the events: nodes are kept with their names and depths, and each event adds some.
All depths are zero or more except that of the root, if a question made it. -/

namespace CppCoder.GraphGrowth
open Support Utf8 JsonValue Session Viewer

variable {g : Graph}

/-- The nodes are listed in the order of their creation, each once. -/
structure Listed (g : Graph) : Prop where
  order : g.order = g.nodes.map Node.id
  distinct : (g.nodes.map Node.id).Nodup

def fixed (n : Node) : Bytes × Int := (n.id, n.depth)

/-- Nodes are kept, and those that are new have these names and depths. -/
structure Grows (g g' : Graph) (added : List (Bytes × Int)) : Prop where
  nodes : g'.nodes.map fixed = g.nodes.map fixed ++ added
  listed : Listed g → Listed g'

theorem ids_fixed (nodes : List Node) : nodes.map Node.id = (nodes.map fixed).map Prod.fst := by
  rw [List.map_map]
  rfl

theorem Grows.restyled {g' : Graph} (same : g'.nodes.map fixed = g.nodes.map fixed)
    (order : g'.order = g.order) : Grows g g' [] where
  nodes := by rw [same, List.append_nil]
  listed := by
    intro listed
    have ids : g'.nodes.map Node.id = g.nodes.map Node.id := by
      rw [ids_fixed, same, ← ids_fixed]
    exact ⟨by rw [order, ids, listed.order], by rw [ids]; exact listed.distinct⟩

theorem Grows.trans {g' g'' : Graph} {first second : List (Bytes × Int)} (one : Grows g g' first)
    (two : Grows g' g'' second) : Grows g g'' (first ++ second) where
  nodes := by rw [two.nodes, one.nodes, List.append_assoc]
  listed := fun listed => two.listed (one.listed listed)

theorem Grows.kept {g' : Graph} {added : List (Bytes × Int)} (grows : Grows g g' added) {n : Node}
    (member : n ∈ g.nodes) : ∃ n' ∈ g'.nodes, n'.id = n.id ∧ n'.depth = n.depth := by
  have there : fixed n ∈ g'.nodes.map fixed := by
    rw [grows.nodes]
    exact List.mem_append_left _ (List.mem_map_of_mem member)
  obtain ⟨n', listed, same⟩ := List.mem_map.1 there
  exact ⟨n', listed, congrArg Prod.fst same, congrArg Prod.snd same⟩

theorem Grows.forall_iff {g' : Graph} {added : List (Bytes × Int)} (grows : Grows g g' added)
    (holds : Bytes × Int → Prop) :
    (∀ n ∈ g'.nodes, holds (fixed n)) ↔ (∀ n ∈ g.nodes, holds (fixed n)) ∧ ∀ a ∈ added, holds a := by
  have read (nodes : List Node) : (∀ n ∈ nodes, holds (fixed n)) ↔ ∀ a ∈ nodes.map fixed, holds a :=
    List.forall_mem_map.symm
  rw [read, read, grows.nodes, List.forall_mem_append]

theorem setStatus_fixed (nodes : List Node) (id : Bytes) (status : Status) :
    (setStatus nodes id status).map fixed = nodes.map fixed := by
  unfold setStatus
  rw [List.map_map]
  apply List.map_congr_left
  intro n _
  rw [Function.comp_apply]
  split_ifs <;> rfl

theorem markParents_fixed (left : Nat) : ∀ {nodes marked : List Node} {cur : Node},
    markParents left nodes cur = some marked → marked.map fixed = nodes.map fixed := by
  induction left with
  | zero =>
    intro nodes marked cur walked
    unfold markParents at walked
    split at walked
    · rw [Option.some.inj walked]
    · exact absurd walked (by simp)
  | succ left ih =>
    intro nodes marked cur walked
    unfold markParents at walked
    split at walked
    · rw [Option.some.inj walked]
    · rw [ih walked]
      split_ifs
      · exact setStatus_fixed _ _ _
      · rfl

theorem addNode_grows (g : Graph) (id parentId : Bytes) (depth : Int) (label : Bytes) (status : Status) :
    Grows g (addNode g id parentId depth label status)
      (if (find g.nodes id).isSome then [] else [(id, depth)]) := by
  unfold addNode
  split_ifs with there
  · exact .restyled (setStatus_fixed _ _ _) rfl
  · refine ⟨by simp [fixed, newNode], fun listed => ⟨?_, ?_⟩⟩
    · simp [listed.order]
    · rw [List.map_append, List.nodup_append]
      refine ⟨listed.distinct, List.nodup_singleton _, ?_⟩
      intro a old b new same
      have equal : b = id := List.mem_singleton.1 new
      exact there ((find_isSome g.nodes id).2 (equal ▸ same ▸ old))

theorem addNode_depth (g : Graph) (id parentId : Bytes) (depth : Int) (label : Bytes) (status : Status) :
    ∃ added, Grows g (addNode g id parentId depth label status) added ∧ ∀ a ∈ added, a.2 = depth := by
  refine ⟨_, addNode_grows g id parentId depth label status, ?_⟩
  split_ifs <;> simp

theorem addDiscarded_grows (id : Bytes) (depth : Int) (keptIds : List Bytes) (raw : List Json) :
    ∀ g : Graph, ∃ added, Grows g (raw.foldl (addDiscarded id depth keptIds) g) added ∧
      ∀ a ∈ added, a.2 = depth := by
  induction raw with
  | nil => exact fun g => ⟨[], .restyled rfl rfl, fun _ none => absurd none List.not_mem_nil⟩
  | cons d rest ih =>
    intro g
    have first : ∃ added, Grows g (addDiscarded id depth keptIds g d) added ∧ ∀ a ∈ added, a.2 = depth := by
      unfold addDiscarded
      split_ifs
      · exact ⟨[], .restyled rfl rfl, fun _ none => absurd none List.not_mem_nil⟩
      · exact addNode_depth g _ _ _ _ _
    obtain ⟨added, grown, deep⟩ := first
    obtain ⟨more, grownMore, deepMore⟩ := ih (addDiscarded id depth keptIds g d)
    exact ⟨added ++ more, grown.trans grownMore, List.forall_mem_append.2 ⟨deep, deepMore⟩⟩

/-! ### Events -/

/-- A question that finds no node of that name makes one above all others. -/
def MakesRoot (g : Graph) (evt : Json) : Prop :=
  eventName evt = ascii "question" ∧ (find g.nodes question).isSome = false

theorem depth_low (low : ∀ n ∈ g.nodes, -1 ≤ n.depth) {id : Bytes} {n : Node}
    (found : find g.nodes id = some n) : 0 ≤ n.depth + 1 := by
  have bound := low n (List.mem_of_find?_eq_some found)
  omega

theorem taskQueued_grows (low : ∀ n ∈ g.nodes, -1 ≤ n.depth) (evt : Json) :
    ∃ added, Grows g (taskQueued g evt) added ∧ ∀ a ∈ added, 0 ≤ a.2 := by
  unfold taskQueued
  generalize (if stringField "parent_id" evt = [] then question else stringField "parent_id" evt) = parent
  obtain ⟨added, grows, deep⟩ := addNode_depth g (stringField "id" evt) parent
    (((find g.nodes parent).map fun n => n.depth + 1).getD 0) (shortLabel (stringField "target_area" evt))
    .queued
  refine ⟨added, grows, fun a member => ?_⟩
  rw [deep a member]
  cases found : find g.nodes parent
  · exact le_refl _
  · exact depth_low low found

theorem judgeResult_grows (low : ∀ n ∈ g.nodes, -1 ≤ n.depth) (evt : Json) :
    ∃ added, Grows g (judgeResult g evt) added ∧ ∀ a ∈ added, 0 ≤ a.2 := by
  unfold judgeResult
  have styled : Grows g { g with nodes := setStatus g.nodes (stringField "id" evt) .explored } [] :=
    .restyled (setStatus_fixed _ _ _) rfl
  obtain ⟨added, grows, deep⟩ := addDiscarded_grows (stringField "id" evt)
    (((find g.nodes (stringField "id" evt)).map Node.depth).getD 0 + 1)
    ((listField "kept_directions" evt).map (stringField "id"))
    ((g.rawDirectionsByTask.lookup (stringField "id" evt)).getD [])
    { g with nodes := setStatus g.nodes (stringField "id" evt) .explored }
  refine ⟨added, styled.trans grows, fun a member => ?_⟩
  rw [deep a member]
  cases found : find g.nodes (stringField "id" evt)
  · exact Int.one_nonneg
  · exact depth_low low found

theorem answerProgress_grows {g' : Graph} {evt : Json} (applied : answerProgress g evt = some g') :
    Grows g g' [] := by
  unfold answerProgress at applied
  dsimp only at applied
  cases found : find g.nodes (stringField "id" evt) with
  | none =>
    rw [found] at applied
    cases applied
    exact .restyled rfl rfl
  | some n =>
    rw [found] at applied
    obtain ⟨nodes, walked, rfl⟩ := Option.map_eq_some_iff.1 applied
    exact .restyled ((markParents_fixed _ walked).trans (setStatus_fixed _ _ _)) rfl

theorem applyEvent_grows (low : ∀ n ∈ g.nodes, -1 ≤ n.depth) {evt : Json} {g' : Graph}
    (applied : applyEvent g evt = some g') : ∃ added, Grows g g' added ∧
      (MakesRoot g evt ∧ added = [(question, -1)] ∨ ¬ MakesRoot g evt ∧ ∀ a ∈ added, 0 ≤ a.2) := by
  have nothing : ∀ a ∈ ([] : List (Bytes × Int)), 0 ≤ a.2 := fun _ none => absurd none List.not_mem_nil
  unfold applyEvent at applied
  by_cases asked : eventName evt = ascii "question"
  · rw [if_pos asked] at applied
    cases applied
    refine ⟨_, addNode_grows g question [] (-1) (ascii "question") .root, ?_⟩
    by_cases there : (find g.nodes question).isSome
    · rw [if_pos there]
      exact .inr ⟨fun makes => Bool.false_ne_true (makes.2.symm.trans there), nothing⟩
    · rw [if_neg there]
      exact .inl ⟨⟨asked, Bool.eq_false_iff.2 there⟩, rfl⟩
  · have plain : ¬ MakesRoot g evt := fun makes => asked makes.1
    have grown : ∃ added, Grows g g' added ∧ ∀ a ∈ added, 0 ≤ a.2 := by
      rw [if_neg asked] at applied
      split_ifs at applied
      · cases applied
        exact taskQueued_grows low evt
      · cases applied
        exact ⟨[], .restyled (setStatus_fixed _ _ _) rfl, nothing⟩
      · cases applied
        exact ⟨[], .restyled rfl rfl, nothing⟩
      · cases applied
        exact judgeResult_grows low evt
      · exact ⟨[], answerProgress_grows applied, nothing⟩
      · cases applied
        exact ⟨[], .restyled rfl rfl, nothing⟩
    obtain ⟨added, grows, deep⟩ := grown
    exact ⟨added, grows, .inr ⟨plain, deep⟩⟩

/-- No event of a log makes the root. -/
def Rootless (events : List Json) : Prop :=
  ∀ before evt after g, events = before ++ evt :: after → replay before = some g → ¬ MakesRoot g evt

theorem question_first {evt : Json} (asked : eventName evt = ascii "question") (rest : List Json) :
    ¬ Rootless (evt :: rest) := by
  intro rootless
  exact rootless [] evt rest {} rfl rfl ⟨asked, rfl⟩

theorem replay_append (events : List Json) (evt : Json) :
    replay (events ++ [evt]) = (replay events).bind fun g => applyEvent g evt := by
  unfold replay
  rw [List.foldlM_append]
  cases events.foldlM applyEvent ({} : Graph) with
  | none => rfl
  | some g => simp

theorem rootless_append {events : List Json} {evt : Json} {g : Graph} (played : replay events = some g) :
    Rootless (events ++ [evt]) ↔ Rootless events ∧ ¬ MakesRoot g evt := by
  constructor
  · intro rootless
    constructor
    · intro before e after h split
      exact rootless before e (after ++ [evt]) h (by rw [split, List.append_assoc, List.cons_append])
    · exact rootless events evt [] g rfl played
  · intro both before e after h split replayed
    rcases List.eq_nil_or_concat after with none | ⟨rest, last, more⟩
    · subst none
      obtain ⟨rfl, same⟩ := List.append_inj' split rfl
      cases same
      cases played.symm.trans replayed
      exact both.2
    · rw [more, List.concat_eq_append, ← List.cons_append, ← List.append_assoc] at split
      obtain ⟨same, -⟩ := List.append_inj' split rfl
      exact both.1 before e rest h same replayed

structure Graded (g : Graph) : Prop where
  listed : Listed g
  low : ∀ n ∈ g.nodes, -1 ≤ n.depth
  above : ∀ n ∈ g.nodes, n.depth < 0 → n.id = question

theorem replay_graded (events : List Json) : ∀ {g : Graph}, replay events = some g →
    Graded g ∧ ((∀ n ∈ g.nodes, 0 ≤ n.depth) ↔ Rootless events) := by
  induction events using List.reverseRecOn with
  | nil =>
    intro g played
    cases played
    have empty (holds : Node → Prop) : ∀ n ∈ ([] : List Node), holds n :=
      fun _ none => absurd none List.not_mem_nil
    refine ⟨⟨⟨rfl, List.nodup_nil⟩, empty _, empty _⟩, iff_of_true (empty _) ?_⟩
    intro before evt after g split
    exact absurd split (by simp)
  | append_singleton events evt ih =>
    intro g' played
    rw [replay_append] at played
    obtain ⟨g, before, applied⟩ := Option.bind_eq_some_iff.1 played
    obtain ⟨graded, grounded⟩ := ih before
    obtain ⟨added, grows, kind⟩ := applyEvent_grows graded.low applied
    constructor
    · refine ⟨grows.listed graded.listed, (grows.forall_iff fun a => -1 ≤ a.2).2 ⟨graded.low, ?_⟩,
        (grows.forall_iff fun a => a.2 < 0 → a.1 = question).2 ⟨graded.above, ?_⟩⟩
      · rcases kind with ⟨-, rfl⟩ | ⟨-, deep⟩
        · simp
        · exact fun a member => (by decide : (-1 : Int) ≤ 0).trans (deep a member)
      · rcases kind with ⟨-, rfl⟩ | ⟨-, deep⟩
        · simp
        · exact fun a member negative => absurd negative (not_lt.2 (deep a member))
    · refine (grows.forall_iff fun a => 0 ≤ a.2).trans ?_
      rw [rootless_append before, ← grounded]
      refine and_congr_right fun _ => ?_
      rcases kind with ⟨makes, rfl⟩ | ⟨plain, deep⟩
      · refine iff_of_false (fun deep => ?_) (not_not_intro makes)
        exact absurd (deep _ (List.mem_singleton_self _)) (by decide)
      · exact iff_of_true deep plain

end CppCoder.GraphGrowth
