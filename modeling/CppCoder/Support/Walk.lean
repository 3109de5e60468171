import CppCoder.Support.Disk

/-! Walking a directory recursively. Every entry is met once, a directory before its entries, and
links are met but not walked through. -/

namespace CppCoder.Support.Walk
open Utf8 Paths Support.Tree Disk FileSystem

structure Entry where
  path : Path
  loc : Loc
  /-- How many links may be followed behind the directories of the path. -/
  links : Nat

/-- `status` of an entry of the tree. -/
def settle (fs : FileSystem) (entry : Entry) : Except Errno Loc :=
  match fs.kind entry.loc with
  | none => .error .noEntry
  | some (.leaf (.link target)) =>
      if entry.links = 0 then .error .tooManyLinks
      else if target.asked = [] then .error .noEntry
      else (fs.walk (entry.links - 1) (origin entry.loc.tail target) target.parts).map Prod.fst
  | some (.leaf .broken) => .error .io
  | some _ => .ok entry.loc

/-- How many links may be followed behind a path. -/
def linksLeft (fs : FileSystem) (p : Path) : Nat :=
  match fs.walk linkMax (fs.start p) p.parts with
  | .error _ => 0
  | .ok (_, left) => left

def below (links : Nat) (start : Path) (place : Loc) (ns : List Name) : Entry :=
  { path := start.descend (ns.map Name.bytes), loc := ns.reverse ++ place, links := links }

theorem components_below (links : Nat) (start : Path) (place : Loc) {ns : List Name} (nonempty : ns ≠ []) :
    components (below links start place ns).path.text = named start.text ++ ns.map Name.bytes ∧
      (below links start place ns).path.absolute = start.absolute := by
  have descended := @components_descend start (ns.map Name.bytes) (by simpa using nonempty)
    fun n member => by
      obtain ⟨name, -, rfl⟩ := List.mem_map.1 member
      exact name.plain
  exact ⟨descended.1, descended.2.2⟩

/-- The entries that `recursive_directory_iterator` visits from a path that leads to a directory. -/
def listing (fs : FileSystem) (start : Path) (place : Loc) : List Entry :=
  match fs.tree.inside place.reverse with
  | none => []
  | some d => d.paths.map (below (linksLeft fs start) start place)

/-- Those whose paths lead to them: behind a null byte every path leads to where the walk started. -/
def entries (fs : FileSystem) (start : Path) (place : Loc) : List Entry :=
  if null ∈ start.text then [] else listing fs start place

theorem dir_above {fs : FileSystem} {inner : List Name} {place : Loc}
    (here : fs.kind (inner ++ place) = some .dir) : fs.kind place = some .dir := by
  induction inner with
  | nil => exact here
  | cons n rest ih => exact ih (kind_parent (n := n) (by simpa using fun none => by simp [none] at here))

theorem mem_listing {fs : FileSystem} {start : Path} {place : Loc} (entry : Entry) :
    entry ∈ listing fs start place ↔
      ∃ ns, ns ≠ [] ∧ fs.kind (ns.reverse ++ place) ≠ none ∧ entry = below (linksLeft fs start) start place ns := by
  unfold listing
  cases found : fs.tree.inside place.reverse with
  | none =>
    apply iff_of_false (by simp)
    rintro ⟨ns, nonempty, there, -⟩
    obtain ⟨n, more, split⟩ := List.exists_cons_of_ne_nil (List.reverse_ne_nil_iff.2 nonempty)
    rw [split] at there
    -- whatever is there would make the place a directory
    have directory := dir_above (kind_parent there)
    unfold kind at directory
    rw [look_dir_iff, found] at directory
    simp at directory
  | some d =>
    have same : ∀ ns, fs.kind (ns.reverse ++ place) = d.look ns := by
      intro ns
      simp only [kind, List.reverse_append, List.reverse_reverse]
      exact look_inside found ns
    simp only [List.mem_map, mem_paths (distinct_inside fs.distinct found), same, and_assoc,
      eq_comm (a := entry)]

theorem mem_entries {fs : FileSystem} {start : Path} {place : Loc} (entry : Entry) :
    entry ∈ entries fs start place ↔ null ∉ start.text ∧
      ∃ ns, ns ≠ [] ∧ fs.kind (ns.reverse ++ place) ≠ none ∧ entry = below (linksLeft fs start) start place ns := by
  unfold entries
  split_ifs with cut
  · simp [cut]
  · rw [and_iff_right cut, mem_listing]

theorem entries_loc_nodup (fs : FileSystem) (start : Path) (place : Loc) :
    ((entries fs start place).map Entry.loc).Nodup := by
  unfold entries
  split_ifs
  · exact List.nodup_nil
  unfold listing
  cases found : fs.tree.inside place.reverse with
  | none => exact List.nodup_nil
  | some d =>
    simp only [List.map_map]
    refine List.Nodup.map (fun a b same => ?_) (paths_nodup (distinct_inside fs.distinct found))
    simpa [below] using same

/-! ### What the status of an entry is -/

theorem plain_descend {p : Path} {ns : List Name} (plain : null ∉ p.text) :
    null ∉ (p.descend (ns.map Name.bytes)).text := by
  induction ns generalizing p with
  | nil => exact plain
  | cons n rest ih =>
    refine ih (p := join p ⟨n.bytes⟩) ?_
    have own : null ∉ n.bytes := n.proper.2.2.2.2
    have apart : null ≠ slash := by decide
    unfold join
    split_ifs <;> simp [plain, own, apart]

theorem walk_start {fs : FileSystem} {start : Path} {place : Loc} (plain : null ∉ start.text)
    (found : fs.resolve start = .ok place) :
    fs.walk linkMax (fs.start start) ((named start.text).map Part.ofPiece) =
      .ok (place, linksLeft fs start) := by
  obtain ⟨-, left, walked⟩ := resolve_ok found
  have same : linksLeft fs start = left := by simp only [linksLeft, walked]
  rw [same]
  rcases parts_plain plain with whole | closed
  · exact whole ▸ walked
  · rw [closed, walk_append] at walked
    cases names : fs.walk linkMax (fs.start start) ((named start.text).map Part.ofPiece) with
    | error e => simp [names] at walked
    | ok reached =>
      rw [names] at walked
      change fs.walk reached.2 reached.1 [.trailing] = .ok (place, left) at walked
      rwa [walk_place (walk_slash walked)] at walked

/-- The entries below a directory, down to the last one, are directories. -/
theorem walk_down {fs : FileSystem} (accepted : ∀ n place, fs.kind (n :: place) ≠ none → n.bytes.length ≤ fs.nameMax)
    (links : Nat) (place : Loc) (ns : List Name) (last : Name)
    (there : fs.kind ((ns ++ [last]).reverse ++ place) ≠ none) :
    fs.walk links place ((ns ++ [last]).map Part.name) =
      fs.walk links (ns.reverse ++ place) [.name last] := by
  induction ns generalizing place with
  | nil => rfl
  | cons n rest ih =>
    have inner : fs.kind ((rest ++ [last]).reverse ++ (n :: place)) ≠ none := by simpa using there
    have directory : fs.kind (n :: place) = some .dir := by
      rw [List.reverse_append] at inner
      exact dir_above (kind_parent inner)
    have up : fs.kind place = some .dir := kind_parent (n := n) (by simp [directory])
    have went : fs.step place (.name n) = .ok (.place (n :: place)) := by
      rw [step_name up, if_neg (Nat.not_lt.2 (accepted n place (by simp [directory]))), directory]
    rw [List.cons_append, List.map_cons, walk_onward went, ih _ inner]
    simp

/-- The status of an entry is that of its path, if the system accepts this path. -/
theorem resolve_entry {fs : FileSystem} {start : Path} {place : Loc} {entry : Entry}
    (found : fs.resolve start = .ok place) (met : entry ∈ entries fs start place)
    (accepted : ∀ n place, fs.kind (n :: place) ≠ none → n.bytes.length ≤ fs.nameMax)
    (short : entry.path.text.length < fs.pathMax) : fs.resolve entry.path = settle fs entry := by
  obtain ⟨plain, ns, nonempty, there, rfl⟩ := (mem_entries entry).1 met
  obtain ⟨init, last, rfl⟩ := List.eq_nil_or_concat' ns |>.resolve_left nonempty
  obtain ⟨split, absolute⟩ := components_below (linksLeft fs start) start place nonempty
  have clean : null ∉ (start.descend ((init ++ [last]).map Name.bytes)).text := plain_descend plain
  have asked : (below (linksLeft fs start) start place (init ++ [last])).path.asked =
      (below (linksLeft fs start) start place (init ++ [last])).path.text := asked_plain clean
  have parts : (below (linksLeft fs start) start place (init ++ [last])).path.parts =
      (named start.text).map Part.ofPiece ++ (init ++ [last]).map Part.name := by
    unfold Path.parts
    rw [asked, split, List.map_append, List.map_map]
    congr 1
    exact List.map_congr_left fun n _ => ofPiece_bytes n
  have inhabited : (below (linksLeft fs start) start place (init ++ [last])).path.text ≠ [] := by
    intro none
    rw [none] at split
    simp [components, named, pieces] at split
  have up : fs.kind (init.reverse ++ place) = some .dir := by
    rw [List.reverse_append] at there
    exact kind_parent there
  unfold FileSystem.resolve ask
  rw [asked, if_neg inhabited, if_neg (Nat.not_le.2 short), parts]
  have starts : fs.start (below (linksLeft fs start) start place (init ++ [last])).path = fs.start start := by
    simp only [FileSystem.start, absolute]
  simp only [starts]
  rw [walk_append, walk_start plain found]
  simp only []
  rw [walk_down accepted _ _ _ _ there]
  have loc : (below (linksLeft fs start) start place (init ++ [last])).loc = last :: (init.reverse ++ place) := by
    simp [below]
  have length := accepted last (init.reverse ++ place) (by simpa using there)
  have went := step_name (n := last) up
  rw [if_neg (Nat.not_lt.2 length)] at went
  unfold settle
  rw [loc]
  cases kind : fs.kind (last :: (init.reverse ++ place)) with
  | none => simp [kind] at there
  | some what =>
    rw [kind] at went
    cases what with
    | dir => simp [walk_place went, Except.map]
    | leaf what =>
      cases what with
      | link target =>
        cases count : linksLeft fs start with
        | zero => simp [walk_barred went, Except.map, below]
        | succ left =>
          simp only [walk_linked went, below]
          by_cases empty : target.asked = []
          · simp [empty, Except.map]
          · simp [empty]
      | broken => simp [walk_failed went, Except.map]
      | special => simp [walk_place went, Except.map]
      | locked => simp [walk_place went, Except.map]
      | file content readable => simp [walk_place went, Except.map]

end CppCoder.Support.Walk
