import CppCoder.GraphGrowth
import Mathlib.Algebra.Field.Rat
import Mathlib.Algebra.Order.Field.Basic
import Mathlib.Algebra.Order.Ring.Rat
import Mathlib.Data.List.Sort
import Mathlib.Tactic.FieldSimp
import Mathlib.Tactic.Linarith
import Mathlib.Tactic.Positivity

/-! Where the page draws the nodes: in columns by depth, each ordered by the heights of the parents. Numbers
are exact; a coordinate that is missing stands for one that is undefined or not a number. -/

namespace CppCoder.GraphLayout
open Support Utf8 JsonValue Session Ancestry Viewer GraphGrowth

def svgW : ℚ := 900

def svgH : ℚ := 540

structure Point where
  x : ℚ
  y : ℚ
  deriving DecidableEq

abbrev Places := Bytes → Option Point

/-- How the page sorts. What comes of a comparison that is not consistent is left open. -/
structure Sorting where
  sort : (Node → Node → Option ℚ) → List Node → List Node
  perm : ∀ compare nodes, (sort compare nodes).Perm nodes

def Sorting.stable : Sorting where
  sort compare nodes := nodes.insertionSort fun a b => (compare a b).getD 0 ≤ 0
  perm compare nodes := List.perm_insertionSort (fun a b => (compare a b).getD 0 ≤ 0) nodes

def ordered (g : Graph) : List Node := g.order.filterMap (find g.nodes)

def byDepth (g : Graph) (d : Int) : List Node := (ordered g).filter fun n => n.depth = d

def maxDepth (g : Graph) : Int := ((ordered g).map Node.depth).foldl max 0

def dx (g : Graph) : ℚ := if 0 < maxDepth g then min 120 ((svgW - 120) / maxDepth g) else 120

def parentY (nodes : List Node) (places : Places) (n : Node) : Option ℚ :=
  match n.parentId.bind (find nodes) with
  | none => some (svgH / 2)
  | some p => (places p.id).map Point.y

def compareParents (nodes : List Node) (places : Places) (a b : Node) : Option ℚ := do
  return (← parentY nodes places a) - (← parentY nodes places b)

def spacing (count : Nat) : ℚ := min 46 ((svgH - 80) / max 1 count)

def spot (dx : ℚ) (d count i : Nat) : Point :=
  let startY := svgH / 2 - (count - 1) * spacing count / 2
  ⟨60 + d * dx, if count = 1 ∧ d = 0 then svgH / 2 else startY + i * spacing count⟩

def placeAll (dx : ℚ) (d : Nat) (layer : List Node) (places : Places) : Places :=
  layer.zipIdx.foldl (fun places entry =>
    Function.update places entry.1.id (some (spot dx d layer.length entry.2))) places

def layoutLayer (sorting : Sorting) (g : Graph) (places : Places) (d : Nat) : Places :=
  placeAll (dx g) d (sorting.sort (compareParents g.nodes places) (byDepth g d)) places

/-- The layers from depth zero on. -/
def layout (sorting : Sorting) (g : Graph) (places : Places) : Places :=
  (List.range (maxDepth g + 1).toNat).foldl (layoutLayer sorting g) places

def edgePath (a b : Option Point) : List (Option ℚ) :=
  let xa := a.map Point.x
  let ya := a.map Point.y
  let xb := b.map Point.x
  let yb := b.map Point.y
  let mx := do return ((← xa) + (← xb)) / 2
  [xa, ya, mx, ya, mx, yb, xb, yb]

/-- Around the node the halo of a current one and the ring of an answer; a rejected node is a cross. -/
def nodeMarks (n : Node) (place : Option Point) : List (Option ℚ) :=
  let x := place.map Point.x
  let y := place.map Point.y
  let s := 4.5
  let stroke (rot : ℚ) := [x.map (· - s), y.map (· - s * rot), x.map (· + s), y.map (· + s * rot)]
  (if n.status = .current then [x, y] else []) ++ (if n.status = .answer then [x, y] else []) ++
    if n.status = .rejected then stroke 1 ++ stroke (-1) else [x, y]

def drawEdge (g : Graph) (places : Places) (e : Bytes × Bytes) : List (Option ℚ) :=
  match find g.nodes e.1, find g.nodes e.2 with
  | some a, some b => edgePath (places a.id) (places b.id)
  | _, _ => []

/-- Every coordinate that a rendering writes. -/
def drawing (g : Graph) (places : Places) : List (Option ℚ) :=
  g.edges.flatMap (drawEdge g places) ++ (ordered g).flatMap fun n => nodeMarks n (places n.id)

structure Page where
  graph : Graph := {}
  places : Places := fun _ => none
  emitted : List (Option ℚ) := []

def render (sorting : Sorting) (page : Page) : Page :=
  let places := layout sorting page.graph page.places
  { page with places, emitted := page.emitted ++ drawing page.graph places }

def renders (evt : Json) : Bool :=
  [ascii "task_queued", ascii "task_started", ascii "judge_result", ascii "answer_progress"].contains
    (eventName evt)

def apply (sorting : Sorting) (page : Page) (evt : Json) : Option Page :=
  (applyEvent page.graph evt).map fun graph =>
    if renders evt then render sorting { page with graph } else { page with graph }

/-- Playback on the page. -/
def play (sorting : Sorting) (events : List Json) : Option Page := events.foldlM (apply sorting) {}

theorem spacing_pos (count : Nat) : 0 < spacing count := by
  unfold spacing svgH
  refine lt_min (by norm_num) (div_pos (by norm_num) ?_)
  positivity

theorem layer_height {count : Nat} (some : 0 < count) : (count - 1) * spacing count ≤ svgH - 80 := by
  have one : (1 : ℚ) ≤ count := by exact_mod_cast some
  have share : spacing count ≤ (svgH - 80) / count := by
    unfold spacing
    rw [Nat.max_eq_right some]
    exact min_le_right _ _
  calc ((count : ℚ) - 1) * spacing count
      ≤ count * spacing count := by nlinarith [spacing_pos count]
    _ ≤ count * ((svgH - 80) / count) := by gcongr
    _ = svgH - 80 := by field_simp

theorem spot_bounds {dx : ℚ} {d count i : Nat} (positive : 0 ≤ dx) (wide : d * dx ≤ svgW - 120)
    (inside : i < count) :
    (0 ≤ (spot dx d count i).x ∧ (spot dx d count i).x ≤ svgW) ∧
      0 ≤ (spot dx d count i).y ∧ (spot dx d count i).y ≤ svgH := by
  have step := spacing_pos count
  have height := layer_height (Nat.zero_lt_of_lt inside)
  have last : (i : ℚ) ≤ count - 1 := by
    have bound : i + 1 ≤ count := inside
    have cast : ((i + 1 : Nat) : ℚ) ≤ count := by exact_mod_cast bound
    push_cast at cast
    linarith
  have low : 0 ≤ (i : ℚ) * spacing count := by positivity
  have high : (i : ℚ) * spacing count ≤ (count - 1) * spacing count := by gcongr
  have right : 0 ≤ (d : ℚ) * dx := by positivity
  unfold svgW at wide
  unfold svgH at height
  unfold spot svgW svgH
  dsimp only
  refine ⟨⟨by linarith, by linarith⟩, ?_⟩
  split_ifs
  · norm_num
  · constructor <;> linarith

theorem spot_layers {dx : ℚ} (positive : 0 < dx) {d e count other i j : Nat}
    (same : spot dx d count i = spot dx e other j) : d = e := by
  have columns : (spot dx d count i).x = (spot dx e other j).x := congrArg Point.x same
  unfold spot at columns
  dsimp only at columns
  have equal : (d : ℚ) * dx = e * dx := by linarith
  exact_mod_cast mul_right_cancel₀ positive.ne' equal

theorem spot_rows {dx : ℚ} {d count i j : Nat} (first : i < count) (second : j < count)
    (same : spot dx d count i = spot dx d count j) : i = j := by
  by_cases alone : count = 1
  · omega
  · have rows : (spot dx d count i).y = (spot dx d count j).y := congrArg Point.y same
    unfold spot at rows
    dsimp only at rows
    rw [if_neg (fun both => alone both.1), if_neg (fun both => alone both.1)] at rows
    have equal : (i : ℚ) * spacing count = j * spacing count := by linarith
    exact_mod_cast mul_right_cancel₀ (spacing_pos count).ne' equal

/-! ### Placing one layer -/

section
variable (spots : Node × Nat → Point)

theorem foldl_update_other {id : Bytes} (entries : List (Node × Nat))
    (absent : ∀ e ∈ entries, e.1.id ≠ id) (places : Places) :
    entries.foldl (fun (places : Places) e => Function.update places e.1.id (some (spots e))) places id =
      places id := by
  induction entries generalizing places with
  | nil => rfl
  | cons e rest ih =>
    rw [List.foldl_cons, ih fun later member => absent later (List.mem_cons_of_mem _ member)]
    exact Function.update_of_ne (absent e List.mem_cons_self).symm _ _

theorem foldl_update_self (entries : List (Node × Nat)) (distinct : (entries.map fun e => e.1.id).Nodup)
    (places : Places) : ∀ e ∈ entries,
    entries.foldl (fun (places : Places) e => Function.update places e.1.id (some (spots e))) places e.1.id =
      some (spots e) := by
  induction entries generalizing places with
  | nil => exact fun _ none => absurd none List.not_mem_nil
  | cons first rest ih =>
    intro e member
    rw [List.map_cons, List.nodup_cons] at distinct
    rw [List.foldl_cons]
    rcases List.mem_cons.1 member with same | later
    · subst same
      rw [foldl_update_other, Function.update_self]
      intro other there equal
      exact distinct.1 (equal ▸ List.mem_map_of_mem there)
    · exact ih distinct.2 _ e later

end

theorem zipIdx_names (layer : List Node) : (layer.zipIdx.map fun e => e.1.id) = layer.map Node.id := by
  calc (layer.zipIdx.map fun e => e.1.id)
      = (layer.zipIdx.map Prod.fst).map Node.id := List.map_map.symm
    _ = layer.map Node.id := by rw [List.zipIdx_map_fst]

def Settled (g : Graph) (places : Places) (d : Nat) : Prop :=
  ∃ layer : List Node, layer.Perm (byDepth g d) ∧
    ∀ (i : Nat) (n : Node), layer[i]? = some n → places n.id = some (spot (dx g) d layer.length i)

variable {g : Graph} {places : Places} (sorting : Sorting)

theorem ordered_eq (listed : Listed g) : ordered g = g.nodes := by
  unfold ordered
  rw [listed.order, List.filterMap_map]
  calc g.nodes.filterMap (find g.nodes ∘ Node.id)
      = g.nodes.filterMap some := List.filterMap_congr fun n member => find_mem listed.distinct member
    _ = g.nodes := List.filterMap_some

theorem mem_byDepth (listed : Listed g) {d : Int} {n : Node} :
    n ∈ byDepth g d ↔ n ∈ g.nodes ∧ n.depth = d := by
  unfold byDepth
  rw [ordered_eq listed, List.mem_filter, decide_eq_true_iff]

theorem layoutLayer_settles (listed : Listed g) (places : Places) (d : Nat) :
    Settled g (layoutLayer sorting g places d) d := by
  have same := sorting.perm (compareParents g.nodes places) (byDepth g d)
  have distinct : ((byDepth g d).map Node.id).Nodup := by
    unfold byDepth
    rw [ordered_eq listed]
    exact listed.distinct.sublist (List.filter_sublist.map _)
  have names : ((sorting.sort (compareParents g.nodes places) (byDepth g d)).zipIdx.map
      fun e => e.1.id).Nodup := by
    rw [zipIdx_names]
    exact (same.map Node.id).nodup_iff.2 distinct
  refine ⟨_, same, fun i n found => ?_⟩
  exact foldl_update_self _ _ names places (n, i) (List.mem_zipIdx_iff_getElem?.2 found)

theorem layoutLayer_other (d : Nat) {id : Bytes} (absent : ∀ n ∈ byDepth g d, n.id ≠ id) :
    layoutLayer sorting g places d id = places id := by
  refine foldl_update_other _ _ ?_ places
  intro e member
  have there := List.fst_mem_of_mem_zipIdx member
  exact absent e.1 ((sorting.perm _ _).mem_iff.1 there)

theorem Settled.keep (listed : Listed g) {d e : Nat} (apart : d ≠ e) (settled : Settled g places e) :
    Settled g (layoutLayer sorting g places d) e := by
  obtain ⟨layer, same, placed⟩ := settled
  refine ⟨layer, same, fun i n found => ?_⟩
  obtain ⟨there, deep⟩ := (mem_byDepth listed).1 (same.mem_iff.1 (List.mem_of_getElem? found))
  rw [layoutLayer_other, placed i n found]
  intro other member equal
  obtain ⟨here, depth⟩ := (mem_byDepth listed).1 member
  have one : other = n := item_unique listed.distinct here there equal
  rw [one, deep] at depth
  exact apart (by exact_mod_cast depth.symm)

section
variable {d : Nat} {m n : Node}

theorem layer_index (listed : Listed g) {layer : List Node} (same : layer.Perm (byDepth g d))
    (member : n ∈ g.nodes) (depth : n.depth = d) : ∃ i < layer.length, layer[i]? = some n := by
  have there : n ∈ layer := same.mem_iff.2 ((mem_byDepth listed).2 ⟨member, depth⟩)
  obtain ⟨i, bound, found⟩ := List.getElem_of_mem there
  exact ⟨i, bound, by rw [List.getElem?_eq_getElem bound, found]⟩

theorem Settled.spot (listed : Listed g) (settled : Settled g places d) (member : n ∈ g.nodes)
    (depth : n.depth = d) :
    ∃ count, ∃ i < count, places n.id = some (GraphLayout.spot (dx g) d count i) := by
  obtain ⟨layer, same, placed⟩ := settled
  obtain ⟨i, bound, found⟩ := layer_index listed same member depth
  exact ⟨_, i, bound, placed i n found⟩

theorem Settled.unique (listed : Listed g) (settled : Settled g places d) (first : m ∈ g.nodes)
    (depthM : m.depth = d) (second : n ∈ g.nodes) (depthN : n.depth = d)
    (equal : places m.id = places n.id) : m = n := by
  obtain ⟨layer, same, placed⟩ := settled
  obtain ⟨i, boundM, foundM⟩ := layer_index listed same first depthM
  obtain ⟨j, boundN, foundN⟩ := layer_index listed same second depthN
  rw [placed i m foundM, placed j n foundN] at equal
  have rows : i = j := spot_rows boundM boundN (Option.some.inj equal)
  rw [rows, foundN] at foundM
  exact (Option.some.inj foundM).symm

end

theorem layers_settled (listed : Listed g) (places : Places) (count : Nat) :
    ∀ d < count, Settled g ((List.range count).foldl (layoutLayer sorting g) places) d := by
  induction count with
  | zero => exact fun d none => absurd none (Nat.not_lt_zero d)
  | succ count ih =>
    intro d bound
    rw [List.range_succ, List.foldl_append, List.foldl_cons, List.foldl_nil]
    by_cases last : d = count
    · rw [last]
      exact layoutLayer_settles sorting listed _ count
    · exact (ih d (by omega)).keep sorting listed (Ne.symm last)

theorem layers_other (listed : Listed g) {id : Bytes} (above : ∀ n ∈ g.nodes, n.id = id → n.depth < 0)
    (places : Places) (count : Nat) :
    (List.range count).foldl (layoutLayer sorting g) places id = places id := by
  induction count with
  | zero => rfl
  | succ count ih =>
    rw [List.range_succ, List.foldl_append, List.foldl_cons, List.foldl_nil, layoutLayer_other, ih]
    intro n member same
    obtain ⟨there, depth⟩ := (mem_byDepth listed).1 member
    have negative := above n there same
    omega

end CppCoder.GraphLayout
