import CppCoder.GraphLayout

/-! Whether the layout gives every node a place of its own inside the drawing, after any events. The layers
begin at depth zero, and the root that a question makes is above them. -/

namespace CppCoder.LayoutBounds
open Support Utf8 JsonValue Session Ancestry Viewer GraphGrowth GraphLayout

/-- Every node has coordinates within the drawing, and no two nodes have the same. -/
structure Fits (g : Graph) (places : Places) : Prop where
  inside : ∀ id ∈ g.order, ∃ p, places id = some p ∧ (0 ≤ p.x ∧ p.x ≤ svgW) ∧ 0 ≤ p.y ∧ p.y ≤ svgH
  apart : ∀ a ∈ g.order, ∀ b ∈ g.order, a ≠ b → places a ≠ places b

variable {g : Graph} {places : Places} (sorting : Sorting)

theorem le_foldl_max (depths : List Int) (start : Int) :
    start ≤ depths.foldl max start ∧ ∀ d ∈ depths, d ≤ depths.foldl max start := by
  induction depths generalizing start with
  | nil => exact ⟨le_refl _, fun _ none => absurd none List.not_mem_nil⟩
  | cons first rest ih =>
    obtain ⟨low, others⟩ := ih (max start first)
    rw [List.foldl_cons]
    refine ⟨(le_max_left _ _).trans low, fun d member => ?_⟩
    rcases List.mem_cons.1 member with same | later
    · rw [same]
      exact (le_max_right _ _).trans low
    · exact others d later

theorem depth_le_maxDepth (listed : Listed g) {n : Node} (member : n ∈ g.nodes) : n.depth ≤ maxDepth g := by
  apply (le_foldl_max _ 0).2
  rw [ordered_eq listed]
  exact List.mem_map_of_mem member

theorem dx_pos (g : Graph) : 0 < dx g := by
  unfold dx svgW
  split_ifs with deep
  · have positive : (0 : ℚ) < maxDepth g := by exact_mod_cast deep
    exact lt_min (by norm_num) (div_pos (by norm_num) positive)
  · norm_num

theorem dx_wide {d : Nat} (reached : (d : Int) ≤ maxDepth g) : d * dx g ≤ svgW - 120 := by
  unfold dx svgW
  split_ifs with deep
  · have positive : (0 : ℚ) < maxDepth g := by exact_mod_cast deep
    have bound : (d : ℚ) ≤ maxDepth g := by exact_mod_cast reached
    have share : min 120 ((900 - 120) / (maxDepth g : ℚ)) ≤ (900 - 120) / maxDepth g := min_le_right _ _
    calc (d : ℚ) * min 120 ((900 - 120) / (maxDepth g : ℚ))
        ≤ d * ((900 - 120) / maxDepth g) := by gcongr
      _ ≤ maxDepth g * ((900 - 120) / maxDepth g) := by gcongr
      _ = 900 - 120 := by field_simp
  · have zero : d = 0 := by omega
    rw [zero]
    norm_num

theorem layout_settled (listed : Listed g) (places : Places) {n : Node} (member : n ∈ g.nodes) {d : Nat}
    (depth : n.depth = d) : Settled g (layout sorting g places) d := by
  have reached := depth_le_maxDepth listed member
  exact layers_settled sorting listed places _ d (by omega)

theorem layout_fits (listed : Listed g) (grounded : ∀ n ∈ g.nodes, 0 ≤ n.depth) :
    Fits g (layout sorting g places) := by
  constructor
  · intro id there
    rw [listed.order] at there
    obtain ⟨n, member, rfl⟩ := List.mem_map.1 there
    obtain ⟨d, depth⟩ := Int.eq_ofNat_of_zero_le (grounded n member)
    obtain ⟨count, i, bound, placed⟩ := (layout_settled sorting listed places member depth).spot listed
      member depth
    have reached : (d : Int) ≤ maxDepth g := depth ▸ depth_le_maxDepth listed member
    exact ⟨_, placed, spot_bounds (dx_pos g).le (dx_wide reached) bound⟩
  · intro a thereA b thereB different equal
    rw [listed.order] at thereA thereB
    obtain ⟨m, first, rfl⟩ := List.mem_map.1 thereA
    obtain ⟨n, second, rfl⟩ := List.mem_map.1 thereB
    obtain ⟨d, depthM⟩ := Int.eq_ofNat_of_zero_le (grounded m first)
    obtain ⟨e, depthN⟩ := Int.eq_ofNat_of_zero_le (grounded n second)
    have settled := layout_settled sorting listed places first depthM
    obtain ⟨count, i, -, placedM⟩ := settled.spot listed first depthM
    obtain ⟨other, j, -, placedN⟩ := (layout_settled sorting listed places second depthN).spot listed
      second depthN
    have layers : d = e := by
      apply spot_layers (dx_pos g)
      exact Option.some.inj (placedM.symm.trans (equal.trans placedN))
    have one := settled.unique listed first depthM second (layers ▸ depthN) equal
    exact different (congrArg Node.id one)

theorem layout_other (listed : Listed g) {id : Bytes} (above : ∀ n ∈ g.nodes, n.id = id → n.depth < 0) :
    layout sorting g places id = places id := layers_other sorting listed above places _

theorem edgePath_defined (p q : Point) : none ∉ edgePath (some p) (some q) := by
  simp [edgePath]

theorem nodeMarks_defined (n : Node) (p : Point) : none ∉ nodeMarks n (some p) := by
  unfold nodeMarks
  split_ifs <;> simp

theorem drawing_defined (listed : Listed g) (placed : ∀ n ∈ g.nodes, ∃ p, places n.id = some p) :
    none ∉ drawing g places := by
  unfold drawing
  rw [ordered_eq listed, List.mem_append, List.mem_flatMap, List.mem_flatMap]
  intro written
  rcases written with ⟨e, -, there⟩ | ⟨n, member, there⟩
  · unfold drawEdge at there
    split at there
    next a b foundA foundB =>
      obtain ⟨p, placedA⟩ := placed a (List.mem_of_find?_eq_some foundA)
      obtain ⟨q, placedB⟩ := placed b (List.mem_of_find?_eq_some foundB)
      rw [placedA, placedB] at there
      exact edgePath_defined p q there
    next => exact List.not_mem_nil there
  · obtain ⟨p, place⟩ := placed n member
    rw [place] at there
    exact nodeMarks_defined n p there

/-! ### Renderings during playback -/

/-- What holds of a page after any events. -/
structure Sound (page : Page) : Prop where
  listed : Listed page.graph
  placed : ∀ id, (∀ n ∈ page.graph.nodes, n.id = id → n.depth < 0) → page.places id = none
  emitted : (∀ n ∈ page.graph.nodes, 0 ≤ n.depth) → none ∉ page.emitted

variable {page : Page}

theorem Sound.grow (sound : Sound page) {g' : Graph} {added : List (Bytes × Int)}
    (grows : Grows page.graph g' added) : Sound { page with graph := g' } where
  listed := grows.listed sound.listed
  placed := by
    intro id above
    apply sound.placed id
    intro n member same
    obtain ⟨n', kept, name, depth⟩ := grows.kept member
    exact depth ▸ above n' kept (name.trans same)
  emitted := fun grounded => sound.emitted ((grows.forall_iff fun a => 0 ≤ a.2).1 grounded).1

theorem drawing_grounded (listed : Listed g) (grounded : ∀ n ∈ g.nodes, 0 ≤ n.depth) :
    none ∉ drawing g (layout sorting g places) := by
  refine drawing_defined listed fun n member => ?_
  have named : n.id ∈ g.order := by
    rw [listed.order]
    exact List.mem_map_of_mem member
  obtain ⟨p, placed, -⟩ := (layout_fits sorting listed grounded).inside n.id named
  exact ⟨p, placed⟩

theorem Sound.render (sound : Sound page) : Sound (render sorting page) where
  listed := sound.listed
  placed := by
    intro id above
    have same : (GraphLayout.render sorting page).places id = page.places id :=
      layout_other sorting sound.listed above
    rw [same]
    exact sound.placed id above
  emitted := by
    intro grounded
    unfold GraphLayout.render
    rw [List.mem_append, not_or]
    exact ⟨sound.emitted grounded, drawing_grounded sorting sound.listed grounded⟩

theorem play_sound (events : List Json) : ∀ {page : Page}, play sorting events = some page →
    replay events = some page.graph ∧ Sound page := by
  induction events using List.reverseRecOn with
  | nil =>
    intro page played
    cases played
    refine ⟨rfl, ⟨rfl, List.nodup_nil⟩, fun _ _ => rfl, fun _ => List.not_mem_nil⟩
  | append_singleton events evt ih =>
    intro page' played
    unfold play at played
    rw [List.foldlM_append] at played
    obtain ⟨page, before, last⟩ := Option.bind_eq_some_iff.1 played
    obtain ⟨replayed, sound⟩ := ih before
    have applied : GraphLayout.apply sorting page evt = some page' := by simpa using last
    obtain ⟨g', event, shown⟩ := Option.map_eq_some_iff.1 applied
    obtain ⟨added, grows, -⟩ := applyEvent_grows (replay_graded events replayed).1.low event
    have grown := sound.grow grows
    have graph : page'.graph = g' := by
      rw [← shown]
      split_ifs <;> rfl
    rw [replay_append, replayed, Option.bind_some, graph]
    refine ⟨event, ?_⟩
    rw [← shown]
    split_ifs
    · exact grown.render sorting
    · exact grown

theorem Sound.unplaced (sound : Sound page) {n : Node} (member : n ∈ page.graph.nodes) (above : n.depth < 0) :
    layout sorting page.graph page.places n.id = none := by
  have only : ∀ m ∈ page.graph.nodes, m.id = n.id → m.depth < 0 := by
    intro m there same
    rw [item_unique sound.listed.distinct there member same]
    exact above
  rw [layout_other sorting sound.listed only]
  exact sound.placed n.id only

theorem Sound.fits_iff (sound : Sound page) :
    Fits page.graph (layout sorting page.graph page.places) ∧
        none ∉ (GraphLayout.render sorting page).emitted ↔
      ∀ n ∈ page.graph.nodes, 0 ≤ n.depth := by
  constructor
  · intro holds n member
    by_contra above
    have named : n.id ∈ page.graph.order := by
      rw [sound.listed.order]
      exact List.mem_map_of_mem member
    obtain ⟨p, placed, -⟩ := holds.1.inside n.id named
    rw [sound.unplaced sorting member (not_le.1 above)] at placed
    exact Option.some_ne_none p placed.symm
  · intro grounded
    exact ⟨layout_fits sorting sound.listed grounded, (sound.render sorting).emitted grounded⟩

theorem asked_unplaced {evt : Json} (asked : eventName evt = ascii "question") (rest : List Json)
    (played : play sorting (evt :: rest) = some page) :
    layout sorting page.graph page.places question = none := by
  obtain ⟨replayed, sound⟩ := play_sound sorting _ played
  obtain ⟨graded, grounded⟩ := replay_graded _ replayed
  have raised : ∃ n ∈ page.graph.nodes, n.depth < 0 := by
    by_contra all
    push Not at all
    exact question_first asked rest (grounded.1 all)
  obtain ⟨n, member, above⟩ := raised
  rw [← graded.above n member above]
  exact sound.unplaced sorting member above

/-- After any events every node has a place of its own in the drawing, and no rendering wrote anything but
numbers, exactly if no event made the root. -/
theorem layout_fits_iff (events : List Json) (page : Page) (played : play sorting events = some page) :
    Fits page.graph (layout sorting page.graph page.places) ∧ none ∉ (render sorting page).emitted ↔
      Rootless events := by
  obtain ⟨replayed, sound⟩ := play_sound sorting events played
  rw [sound.fits_iff, (replay_graded events replayed).2]

def opening : List Json :=
  [event "question" [("question", .str (ascii "Why?"))],
    event "task_queued" [("id", .str (ascii "seed")), ("parent_id", .str []),
      ("target_area", .str (ascii "(keyword probe: 1 files)"))]]

/-- The root is at depth -1, where no layer is placed, and the edge from it has no numbers. -/
theorem root_unplaced : ∃ page, play .stable opening = some page ∧ question ∈ page.graph.order ∧
    layout .stable page.graph page.places question = none ∧ none ∈ (render .stable page).emitted := by
  refine ⟨_, rfl, ?_, ?_, ?_⟩ <;> decide +kernel

def queuedBelow (id parent : String) : Json :=
  event "task_queued" [("id", .str (ascii id)), ("parent_id", .str (ascii parent)),
    ("target_area", .str (ascii "a.cpp"))]

def branching : List Json :=
  [queuedBelow "seed" "", queuedBelow "task-1" "seed", queuedBelow "task-2" "seed",
    queuedBelow "task-3" "task-1", queuedBelow "task-4" "task-2"]

/-- Without a question the tasks are all in their places. -/
theorem layout_fits_task : ∃ page, play .stable branching = some page ∧ page.graph.order.length = 5 ∧
    page.graph.edges.length = 4 ∧ Fits page.graph (layout .stable page.graph page.places) ∧
      none ∉ (render .stable page).emitted := by
  refine ⟨_, rfl, by decide +kernel, by decide +kernel, ?_⟩
  apply (layout_fits_iff .stable branching _ rfl).2
  intro before evt after g split _ makes
  have only : evt ∈ branching := by
    rw [split]
    exact List.mem_append_right _ List.mem_cons_self
  have tasks : ∀ e ∈ branching, eventName e ≠ ascii "question" := by decide
  exact tasks evt only makes.1

end CppCoder.LayoutBounds
