import CppCoder.Support.Walk
import Mathlib.Data.List.Perm.Basic

/-! The order in which directories are read. Two file systems that hold the same at every place may still
list their directories differently: a path leads to the same place in both, and a walk meets the same
entries, in another order. Any entry can be the first of its walk, and any file the last. -/

namespace CppCoder.Support.Tree
open Utf8 Paths

def Dir.erase (n : Name) : Dir → Dir
  | .nil => .nil
  | .leaf m what rest => if m = n then rest else .leaf m what (rest.erase n)
  | .sub m entries rest => if m = n then rest else .sub m entries (rest.erase n)

/-- A way to add an entry to a directory that has none of its name. -/
structure Insertion where
  insert : Name → Node → Dir → Dir
  find : ∀ n m node rest, (insert n node rest).find m = if n = m then some node else rest.find m
  distinct : ∀ n node rest, n ∉ rest.names → node.Distinct → rest.Distinct →
    (insert n node rest).Distinct

def ahead : Insertion where
  insert n node rest := node.entry n rest
  find := find_entry
  distinct _ _ _ new inner outer := distinct_entry new inner outer

/-- After all the others. -/
def behind : Insertion where
  insert n node rest := rest.set n node
  find := find_set
  distinct _ _ _ _ inner outer := distinct_set outer inner

/-- Takes out the entries on the way to a place, outermost first, and puts each one back. -/
def Dir.move (way : Insertion) : List Name → Dir → Dir
  | [], d => d
  | n :: ns, d =>
      match d.find n with
      | some (.dir entries) => way.insert n (.dir (entries.move way ns)) (d.erase n)
      | some (.leaf what) => way.insert n (.leaf what) (d.erase n)
      | none => d

def Node.move (way : Insertion) (ns : List Name) : Node → Node
  | .dir entries => .dir (entries.move way ns)
  | .leaf what => .leaf what

theorem find_erase {d : Dir} (distinct : d.Distinct) (n m : Name) :
    (d.erase n).find m = if n = m then none else d.find m := by
  have absent : ∀ {k : Name} {rest : Dir}, k ∉ rest.names → rest.find k = none := by
    intro k rest new
    simpa [mem_names] using new
  induction d with
  | nil => simp [Dir.erase, Dir.find]
  | leaf k what rest ih =>
    by_cases here : k = n
    · subst here
      rw [Dir.erase, if_pos rfl, Dir.find]
      split_ifs with same
      · exact same ▸ absent distinct.1
      · rfl
    · rw [Dir.erase, if_neg here, Dir.find, Dir.find, ih distinct.2]
      by_cases there : n = m
      · rw [if_pos there, if_neg (fun same => here (same.trans there.symm)), if_pos there]
      · rw [if_neg there, if_neg there]
  | sub k entries rest _ ih =>
    by_cases here : k = n
    · subst here
      rw [Dir.erase, if_pos rfl, Dir.find]
      split_ifs with same
      · exact same ▸ absent distinct.1
      · rfl
    · rw [Dir.erase, if_neg here, Dir.find, Dir.find, ih distinct.2.2]
      by_cases there : n = m
      · rw [if_pos there, if_neg (fun same => here (same.trans there.symm)), if_pos there]
      · rw [if_neg there, if_neg there]

theorem names_erase {d : Dir} (distinct : d.Distinct) (n m : Name) :
    m ∈ (d.erase n).names ↔ m ≠ n ∧ m ∈ d.names := by
  rw [mem_names, mem_names, find_erase distinct]
  split_ifs with same
  · simp [same]
  · simp [Ne.symm same]

theorem distinct_erase {d : Dir} (distinct : d.Distinct) (n : Name) : (d.erase n).Distinct := by
  induction d with
  | nil => exact trivial
  | leaf m what rest ih =>
    simp only [Dir.erase]
    split_ifs
    · exact distinct.2
    · exact ⟨fun member => distinct.1 ((names_erase distinct.2 n m).1 member).2, ih distinct.2⟩
  | sub m entries rest _ ih =>
    simp only [Dir.erase]
    split_ifs
    · exact distinct.2.2
    · exact ⟨fun member => distinct.1 ((names_erase distinct.2.2 n m).1 member).2, distinct.2.1,
        ih distinct.2.2⟩

theorem not_mem_erase {d : Dir} (distinct : d.Distinct) (n : Name) : n ∉ (d.erase n).names :=
  fun member => ((names_erase distinct n n).1 member).1 rfl

theorem distinct_move (way : Insertion) (ns : List Name) {d : Dir} (distinct : d.Distinct) :
    (d.move way ns).Distinct := by
  induction ns generalizing d with
  | nil => exact distinct
  | cons n rest ih =>
    have free := not_mem_erase distinct n
    have others := distinct_erase distinct n
    simp only [Dir.move]
    cases found : d.find n with
    | none => exact distinct
    | some node =>
      cases node with
      | leaf what => exact way.distinct _ _ _ free trivial others
      | dir entries => exact way.distinct _ _ _ free (ih (distinct_find distinct found)) others

theorem find_move (way : Insertion) (n : Name) (ns : List Name) {d : Dir} (distinct : d.Distinct) (m : Name) :
    (d.move way (n :: ns)).find m =
      if n = m then (d.find m).map (Node.move way ns) else d.find m := by
  simp only [Dir.move]
  by_cases same : n = m
  · subst same
    rw [if_pos rfl]
    cases found : d.find n with
    | none => exact found
    | some node =>
      cases node with
      | leaf what => exact (way.find _ _ _ _).trans (if_pos rfl)
      | dir entries => exact (way.find _ _ _ _).trans (if_pos rfl)
  · rw [if_neg same]
    have others : (d.erase n).find m = d.find m := (find_erase distinct n m).trans (if_neg same)
    cases found : d.find n with
    | none => rfl
    | some node =>
      cases node with
      | leaf what => exact ((way.find _ _ _ _).trans (if_neg same)).trans others
      | dir entries => exact ((way.find _ _ _ _).trans (if_neg same)).trans others

theorem look_move (way : Insertion) (ns : List Name) {d : Dir} (distinct : d.Distinct) (place : List Name) :
    (d.move way ns).look place = d.look place := by
  induction ns generalizing d place with
  | nil => rfl
  | cons n rest ih =>
    cases place with
    | nil => rfl
    | cons m more =>
      simp only [Dir.look, find_move way n rest distinct]
      by_cases same : n = m
      · rw [if_pos same]
        cases found : d.find m with
        | none => rfl
        | some node =>
          cases node with
          | leaf what => rfl
          | dir entries => exact ih (distinct_find distinct found) more
      · rw [if_neg same]

theorem inside_move (way : Insertion) (ns : List Name) {d e : Dir} {outer : List Name} (distinct : d.Distinct)
    (found : d.inside outer = some e) :
    (d.move way (outer ++ ns)).inside outer = some (e.move way ns) := by
  induction outer generalizing d with
  | nil =>
    cases found
    rfl
  | cons n rest ih =>
    obtain ⟨entries, here, deeper⟩ := inside_cons found
    simp only [List.cons_append, Dir.inside, find_move way n (rest ++ ns) distinct, if_true, here]
    exact ih (distinct_find distinct here) deeper

theorem paths_ahead (ns : List Name) {d : Dir} (nonempty : ns ≠ []) (there : d.look ns ≠ none) :
    ∃ before after, (d.move ahead ns).paths = before ++ ns :: after ∧
      ∀ place ∈ before, d.look place = some .dir := by
  induction ns generalizing d with
  | nil => exact absurd rfl nonempty
  | cons n rest ih =>
    simp only [Dir.look] at there
    simp only [Dir.move]
    cases found : d.find n with
    | none => simp [found] at there
    | some node =>
      rw [found] at there
      cases node with
      | leaf what =>
        have last : rest = [] := by simpa using there
        subst last
        exact ⟨[], _, rfl, by simp⟩
      | dir entries =>
        by_cases last : rest = []
        · subst last
          exact ⟨[], _, rfl, by simp⟩
        · obtain ⟨before, after, split, directories⟩ := ih last there
          have here : ∀ place, d.look (n :: place) = entries.look place := by
            intro place
            simp only [Dir.look, found]
          have met : (ahead.insert n (.dir (entries.move ahead rest)) (d.erase n)).paths =
              [n] :: (entries.move ahead rest).paths.map (n :: ·) ++ (d.erase n).paths := rfl
          refine ⟨[n] :: before.map (n :: ·), after.map (n :: ·) ++ (d.erase n).paths, ?_,
            fun place member => ?_⟩
          · rw [met, split]
            simp
          · rcases List.mem_cons.1 member with rfl | deeper
            · exact here []
            · obtain ⟨inner, earlier, rfl⟩ := List.mem_map.1 deeper
              rw [here]
              exact directories inner earlier

theorem paths_set {n : Name} {d : Dir} (new : n ∉ d.names) (node : Node) :
    (d.set n node).paths = d.paths ++ (node.entry n .nil).paths := by
  induction d with
  | nil => rfl
  | leaf m what rest ih =>
    have apart : m ≠ n := fun same => new (same ▸ List.mem_cons_self)
    rw [Dir.set, if_neg apart, Dir.paths, Dir.paths, ih fun member => new (List.mem_cons_of_mem _ member),
      List.cons_append]
  | sub m entries rest _ ih =>
    have apart : m ≠ n := fun same => new (same ▸ List.mem_cons_self)
    rw [Dir.set, if_neg apart, Dir.paths, Dir.paths, ih fun member => new (List.mem_cons_of_mem _ member),
      List.append_assoc]

theorem paths_behind (ns : List Name) {d : Dir} {what : Leaf} (distinct : d.Distinct)
    (there : d.look ns = some (.leaf what)) : ∃ before, (d.move behind ns).paths = before ++ [ns] := by
  induction ns generalizing d with
  | nil => cases there
  | cons n rest ih =>
    have new := not_mem_erase distinct n
    simp only [Dir.look] at there
    simp only [Dir.move]
    cases found : d.find n with
    | none => simp [found] at there
    | some node =>
      rw [found] at there
      cases node with
      | leaf other =>
        have last : rest = [] := by
          by_contra more
          simp [more] at there
        subst last
        exact ⟨_, paths_set new _⟩
      | dir entries =>
        obtain ⟨before, split⟩ := ih (distinct_find distinct found) there
        refine ⟨(d.erase n).paths ++ [n] :: before.map (n :: ·), ?_⟩
        apply (paths_set new _).trans
        simp [Node.entry, Dir.paths, split]

end CppCoder.Support.Tree

namespace CppCoder.Support.Arrangement
open Utf8 Paths Support.Tree Disk FileSystem Walk

/-- The same tree, whose directories are read in an order of their own. -/
structure Rearranges (fs fs' : FileSystem) : Prop where
  kind : ∀ loc, fs'.kind loc = fs.kind loc
  cwd : fs'.cwd = fs.cwd
  nameMax : fs'.nameMax = fs.nameMax
  pathMax : fs'.pathMax = fs.pathMax

variable {fs fs' fs'' : FileSystem}

theorem Rearranges.refl (fs : FileSystem) : Rearranges fs fs := ⟨fun _ => rfl, rfl, rfl, rfl⟩

theorem Rearranges.trans (one : Rearranges fs fs') (two : Rearranges fs' fs'') : Rearranges fs fs'' :=
  ⟨fun loc => (two.kind loc).trans (one.kind loc), two.cwd.trans one.cwd, two.nameMax.trans one.nameMax,
    two.pathMax.trans one.pathMax⟩

theorem Rearranges.step (same : Rearranges fs fs') : fs'.step = fs.step := by
  funext place part
  have kinds : fs'.kind = fs.kind := funext same.kind
  unfold FileSystem.step
  rw [kinds, same.nameMax]

theorem Rearranges.walk (same : Rearranges fs fs') : fs'.walk = fs.walk := by
  funext links place parts
  induction links, place, parts using walk_induction fs with
  | done links place => rw [walk_nil, walk_nil]
  | failed links place part rest e result => rw [walk_failed result, walk_failed (same.step ▸ result)]
  | onward links place part rest next result ih =>
    rw [walk_onward result, walk_onward (same.step ▸ result), ih]
  | barred place part rest target result => rw [walk_barred result, walk_barred (same.step ▸ result)]
  | linked links place part rest target result ih =>
    rw [walk_linked result, walk_linked (same.step ▸ result), ih]

theorem Rearranges.ask (same : Rearranges fs fs') : fs'.ask = fs.ask := by
  funext p
  unfold FileSystem.ask
  rw [same.pathMax]

theorem Rearranges.resolve (same : Rearranges fs fs') (p : Path) : fs'.resolve p = fs.resolve p := by
  unfold FileSystem.resolve FileSystem.start
  rw [same.walk, same.ask, same.cwd]

theorem Rearranges.existingPrefix (same : Rearranges fs fs') : fs'.existingPrefix = fs.existingPrefix := by
  funext links place parts
  induction parts generalizing links place with
  | nil => rfl
  | cons part rest ih =>
    simp only [FileSystem.existingPrefix, same.walk]
    cases fs.walk links place [part] with
    | ok reached => exact ih reached.2 reached.1
    | error e => rfl

theorem Rearranges.canonicalForm (same : Rearranges fs fs') (p : Path) :
    fs'.canonicalForm p = fs.canonicalForm p := by
  unfold FileSystem.canonicalForm FileSystem.existing FileSystem.start
  rw [same.resolve, same.existingPrefix, same.cwd]

theorem Rearranges.settle (same : Rearranges fs fs') (entry : Entry) : settle fs' entry = settle fs entry := by
  unfold Walk.settle
  rw [same.kind, same.walk]

theorem Rearranges.linksLeft (same : Rearranges fs fs') (p : Path) : linksLeft fs' p = linksLeft fs p := by
  unfold Walk.linksLeft FileSystem.start
  rw [same.walk, same.cwd]

theorem Rearranges.entries (same : Rearranges fs fs') (start : Path) (place : Loc) :
    (entries fs' start place).Perm (entries fs start place) := by
  have once : ∀ fs : FileSystem, (Walk.entries fs start place).Nodup :=
    fun fs => (entries_loc_nodup fs start place).of_map
  apply (List.perm_ext_iff_of_nodup (once fs') (once fs)).2
  intro entry
  simp only [mem_entries, same.kind, same.linksLeft]

/-! ### Orders that bring an entry to the front or to the end -/

def moveTo (way : Insertion) (fs : FileSystem) (loc : Loc) : FileSystem :=
  { fs with tree := fs.tree.move way loc.reverse, distinct := distinct_move way _ fs.distinct }

theorem rearranges_moveTo (way : Insertion) (fs : FileSystem) (loc : Loc) :
    Rearranges fs (moveTo way fs loc) :=
  ⟨fun place => look_move way _ fs.distinct place.reverse, rfl, rfl, rfl⟩

theorem entries_moveTo (way : Insertion) {start : Path} (whole : null ∉ start.text) {place : Loc} {d : Dir}
    (found : fs.tree.inside place.reverse = some d) (ns : List Name) :
    Walk.entries (moveTo way fs (ns.reverse ++ place)) start place =
      (d.move way ns).paths.map (below (linksLeft fs start) start place) := by
  have left := (rearranges_moveTo way fs (ns.reverse ++ place)).linksLeft start
  unfold Walk.entries Walk.listing
  rw [left]
  unfold moveTo
  simp only [List.reverse_append, List.reverse_reverse]
  rw [if_neg whole, inside_move way ns fs.distinct found]

theorem kind_below {place : Loc} {d : Dir} (found : fs.tree.inside place.reverse = some d) (links : Nat)
    (start : Path) (ns : List Name) : fs.kind (below links start place ns).loc = d.look ns := by
  unfold FileSystem.kind below
  rw [List.reverse_append, List.reverse_reverse, look_inside found]

theorem exists_inside {start : Path} {place : Loc} {entry : Entry}
    (met : entry ∈ Walk.entries fs start place) : null ∉ start.text ∧ ∃ d ns,
      fs.tree.inside place.reverse = some d ∧ ns ≠ [] ∧
      d.look ns = fs.kind entry.loc ∧ d.look ns ≠ none ∧ entry = below (linksLeft fs start) start place ns := by
  obtain ⟨whole, ns, nonempty, there, rfl⟩ := (mem_entries entry).1 met
  unfold Walk.entries Walk.listing at met
  rw [if_neg whole] at met
  cases found : fs.tree.inside place.reverse with
  | none => simp [found] at met
  | some d =>
    have same := kind_below found (linksLeft fs start) start ns
    exact ⟨whole, d, ns, rfl, nonempty, same.symm, same ▸ there, rfl⟩

theorem entries_ahead {start : Path} {place : Loc} {entry : Entry}
    (met : entry ∈ Walk.entries fs start place) :
    ∃ before after, Walk.entries (moveTo ahead fs entry.loc) start place = before ++ entry :: after ∧
      ∀ earlier ∈ before, fs.kind earlier.loc = some .dir := by
  obtain ⟨whole, d, ns, found, nonempty, -, there, rfl⟩ := exists_inside met
  obtain ⟨before, after, split, directories⟩ := paths_ahead ns nonempty there
  refine ⟨before.map (below (linksLeft fs start) start place), after.map (below (linksLeft fs start) start place), ?_, ?_⟩
  · apply (entries_moveTo ahead whole found ns).trans
    rw [split, List.map_append, List.map_cons]
  · intro earlier member
    obtain ⟨inner, way, rfl⟩ := List.mem_map.1 member
    exact (kind_below found _ start inner).trans (directories inner way)

theorem entries_behind {start : Path} {place : Loc} {entry : Entry} {what : Leaf}
    (met : entry ∈ Walk.entries fs start place) (single : fs.kind entry.loc = some (.leaf what)) :
    ∃ before, Walk.entries (moveTo behind fs entry.loc) start place = before ++ [entry] := by
  obtain ⟨whole, d, ns, found, -, same, -, rfl⟩ := exists_inside met
  obtain ⟨before, split⟩ := paths_behind ns (distinct_inside fs.distinct found) (same.trans single)
  refine ⟨before.map (below (linksLeft fs start) start place), ?_⟩
  apply (entries_moveTo behind whole found ns).trans
  rw [split, List.map_append, List.map_cons, List.map_nil]

end CppCoder.Support.Arrangement
