import CppCoder.Session
import CppCoder.Support.Ancestry

/-! The page that replays an event log as a graph. The events are those of an engine, whose ids and areas
are strings; what the page only shows is left out. -/

namespace CppCoder.Viewer
open Support Utf8 JsonValue Session Ancestry

inductive Status where
  | root
  | queued
  | current
  | explored
  | answer
  | rejected
  deriving DecidableEq

structure Node where
  id : Bytes
  parentId : Option Bytes
  depth : Int
  label : Bytes
  status : Status
  deriving DecidableEq

structure Graph where
  nodes : List Node := []
  edges : List (Bytes × Bytes) := []
  order : List Bytes := []
  rawDirectionsByTask : List (Bytes × List Json) := []
  answerNodeIds : List Bytes := []

def question : Bytes := ascii "__question__"

def find (nodes : List Node) (id : Bytes) : Option Node := nodes.find? fun n => n.id = id

def setStatus (nodes : List Node) (id : Bytes) (status : Status) : List Node :=
  nodes.map fun n => if n.id = id then { n with status } else n

def newNode (id parentId : Bytes) (depth : Int) (label : Bytes) (status : Status) : Node :=
  ⟨id, if parentId = [] then none else some parentId, depth, label, status⟩

@[simp] theorem newNode_id (id parentId : Bytes) (depth : Int) (label : Bytes) (status : Status) :
    (newNode id parentId depth label status).id = id := rfl

def addNode (g : Graph) (id parentId : Bytes) (depth : Int) (label : Bytes) (status : Status) : Graph :=
  if (find g.nodes id).isSome then { g with nodes := setStatus g.nodes id status }
  else
    let nodes := g.nodes ++ [newNode id parentId depth label status]
    { g with
      nodes
      order := g.order ++ [id]
      edges := g.edges ++ if parentId ≠ [] ∧ (find nodes parentId).isSome then [(parentId, id)] else [] }

def shortLabel (area : Bytes) : Bytes :=
  let last := (area.map fun c => if c = 92 then 47 else c).reverse.takeWhile (· ≠ 47)
  if last = [] then area else last.reverse

def listField (key : String) (e : Json) : List Json :=
  match e.member key with
  | .ok (some (.arr items)) => items
  | _ => []

/-- Marks the nodes above one as leading to an answer. Where the parents go round in a circle the loop does
not end. -/
def markParents : Nat → List Node → Node → Option (List Node)
  | left, nodes, cur =>
      match cur.parentId.bind (find nodes) with
      | none => some nodes
      | some p =>
          match left with
          | 0 => none
          | left + 1 =>
              markParents left (if p.status ≠ .root ∧ p.status ≠ .answer then setStatus nodes p.id
                .answer else nodes) p

def addDiscarded (id : Bytes) (depth : Int) (keptIds : List Bytes) (g : Graph) (d : Json) : Graph :=
  if keptIds.contains (stringField "id" d) then g
  else addNode g (stringField "id" d) id depth (shortLabel (stringField "target_area" d)) .rejected

def taskQueued (g : Graph) (evt : Json) : Graph :=
  let parent := if stringField "parent_id" evt = [] then question else stringField "parent_id" evt
  let depth := ((find g.nodes parent).map fun n => n.depth + 1).getD 0
  addNode g (stringField "id" evt) parent depth (shortLabel (stringField "target_area" evt)) .queued

def judgeResult (g : Graph) (evt : Json) : Graph :=
  let id := stringField "id" evt
  let parentDepth := ((find g.nodes id).map Node.depth).getD 0
  let raw := (g.rawDirectionsByTask.lookup id).getD []
  let keptIds := (listField "kept_directions" evt).map (stringField "id")
  raw.foldl (addDiscarded id (parentDepth + 1) keptIds) { g with nodes := setStatus g.nodes id .explored }

def answerProgress (g : Graph) (evt : Json) : Option Graph :=
  let id := stringField "id" evt
  match find g.nodes id with
  | none => some g
  | some n =>
      (markParents g.nodes.length (setStatus g.nodes id .answer) n).map fun nodes =>
        { g with nodes, answerNodeIds := g.answerNodeIds ++ [id] }

def applyEvent (g : Graph) (evt : Json) : Option Graph :=
  if eventName evt = ascii "question" then some (addNode g question [] (-1) (ascii "question") .root)
  else if eventName evt = ascii "task_queued" then some (taskQueued g evt)
  else if eventName evt = ascii "task_started" then
    some { g with nodes := setStatus g.nodes (stringField "id" evt) .current }
  else if eventName evt = ascii "worker_result" then
    some { g with rawDirectionsByTask :=
      (stringField "id" evt, listField "directions" evt) :: g.rawDirectionsByTask }
  else if eventName evt = ascii "judge_result" then some (judgeResult g evt)
  else if eventName evt = ascii "answer_progress" then answerProgress g evt
  else some g

def replay (events : List Json) : Option Graph := events.foldlM applyEvent {}

def paint (nodes : List Node) (table : Bytes → Status) : List Node :=
  nodes.map fun n => { n with status := table n.id }

theorem find_paint (nodes : List Node) (table : Bytes → Status) (id : Bytes) :
    find (paint nodes table) id = (find nodes id).map fun n => { n with status := table n.id } := by
  unfold find paint
  rw [List.find?_map]
  rfl

theorem setStatus_paint (nodes : List Node) (table : Bytes → Status) (id : Bytes) (status : Status) :
    setStatus (paint nodes table) id status = paint nodes (Function.update table id status) := by
  unfold setStatus paint
  rw [List.map_map]
  apply List.map_congr_left
  intro n _
  by_cases same : n.id = id
  · subst same
    simp
  · simp [same]

theorem paint_ids (nodes : List Node) (table : Bytes → Status) : (paint nodes table).map Node.id =
    nodes.map Node.id := by
  simp [paint]

variable {nodes : List Node} {table : Bytes → Status} {g : Graph}

theorem find_mem (distinct : (nodes.map Node.id).Nodup) {n : Node} (member : n ∈ nodes) :
    find nodes n.id = some n := by
  cases found : find nodes n.id with
  | none =>
    have other := List.find?_eq_none.1 found n member
    simp at other
  | some m =>
    have same : m.id = n.id := by simpa using List.find?_some found
    rw [item_unique distinct (List.mem_of_find?_eq_some found) member same]

theorem find_none {id : Bytes} (absent : id ∉ nodes.map Node.id) : find nodes id = none := by
  refine List.find?_eq_none.2 fun n member => ?_
  simp only [decide_eq_true_eq]
  intro same
  exact absent (same ▸ List.mem_map_of_mem member)

theorem find_isSome (nodes : List Node) (id : Bytes) : (find nodes id).isSome = true ↔
    id ∈ nodes.map Node.id := by
  unfold find
  rw [List.find?_isSome]
  simp

/-! ### Walking up -/

def Over (nodes : List Node) : Node → Node → Prop := Relation.TransGen (Parent Node.id Node.parentId nodes)

def marked : Status → Status
  | .root => .root
  | _ => .answer

theorem mark_paint (nodes : List Node) (table : Bytes → Status) (id : Bytes) :
    (if table id ≠ .root ∧ table id ≠ .answer then setStatus (paint nodes table) id .answer
      else paint nodes table) =
      paint nodes (Function.update table id (marked (table id))) := by
  split_ifs with unmarked
  · rw [setStatus_paint]
    cases status : table id <;> simp_all [marked]
  · have same : marked (table id) = table id := by
      cases status : table id <;> simp_all [marked]
    rw [same, Function.update_eq_self]

theorem marked_marked (status : Status) : marked (marked status) = marked status := by
  cases status <;> rfl

theorem markParents_paint (rooted : Rooted Node.id Node.parentId nodes)
    (distinct : (nodes.map Node.id).Nodup) :
    ∀ count before n after, before.length = count → nodes = before ++ n :: after → ∀ left, count ≤ left →
      ∀ (table : Bytes → Status) cur, cur.parentId = n.parentId →
      ∃ table', markParents left (paint nodes table) cur = some (paint nodes table') ∧
        (∀ m ∈ nodes, Over nodes m n → table' m.id = marked (table m.id)) ∧
        ∀ id, (∀ m ∈ nodes, m.id = id → ¬ Over nodes m n) → table' id = table id := by
  intro count
  induction count using Nat.strongRecOn with
  | ind count ih =>
    intro before n after length split left bound table cur same
    rcases rooted before n after split with none | ⟨p, early, step⟩
    · refine ⟨table, ?_, fun m _ above => absurd above (above_root none m), fun _ _ => rfl⟩
      unfold markParents
      rw [same, none]
      rfl
    · obtain ⟨first, second, rfl⟩ := List.append_of_mem early
      have listed : p ∈ nodes := by simp [split]
      have shorter : first.length < count := by
        rw [← length]
        simp
      obtain ⟨left, rfl⟩ : ∃ fewer, left = fewer + 1 := ⟨left - 1, by omega⟩
      have climb := ih _ shorter first p (second ++ n :: after) rfl (by simp [split]) left (by omega)
      have above := above_iff distinct (show Parent Node.id Node.parentId nodes p n from ⟨listed, step⟩)
      have seen : cur.parentId.bind (find (paint nodes table)) = some { p with status := table p.id } := by
        rw [same, step, Option.bind_some, find_paint, find_mem distinct listed]
        rfl
      unfold markParents
      rw [seen]
      dsimp only
      rw [mark_paint]
      obtain ⟨table', walked, raised, other⟩ := climb (Function.update table p.id (marked (table p.id)))
        { p with status := table p.id } rfl
      refine ⟨table', walked, ?_, ?_⟩
      · intro m member high
        by_cases again : Over nodes m p
        · rw [raised m member again]
          by_cases equal : m.id = p.id
          · rw [equal, Function.update_self, marked_marked]
          · rw [Function.update_of_ne equal]
        · have equal : m = p := ((above m).1 high).resolve_right again
          subst equal
          rw [other m.id, Function.update_self]
          intro q there named
          rw [item_unique distinct there listed named]
          exact again
      · intro id none
        have apart : id ≠ p.id := fun equal => none p listed equal.symm ((above p).2 (.inl rfl))
        rw [other id, Function.update_of_ne apart]
        intro m member named high
        exact none m member named ((above m).2 (.inr high))

end CppCoder.Viewer
