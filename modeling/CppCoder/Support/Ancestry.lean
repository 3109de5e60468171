import Mathlib.Data.List.Nodup
import Mathlib.Logic.Relation

/-! Lists of items that name their parents. When every parent is listed before its children and names
are distinct, the items form a forest, and walking up from an item ends. -/

namespace CppCoder.Support.Ancestry

variable {ν α : Type} (key : ν → α) (parent : ν → Option α)

def Parent (items : List ν) (p n : ν) : Prop := p ∈ items ∧ parent n = some (key p)

/-- Every item has no parent or one that is listed before it. -/
def Rooted (items : List ν) : Prop :=
  ∀ before n after, items = before ++ n :: after → parent n = none ∨ ∃ p ∈ before, parent n = some (key p)

def edges (items : List ν) : List (α × α) := items.filterMap fun n => (parent n).map fun p => (p, key n)

theorem edges_append (first second : List ν) :
    edges key parent (first ++ second) = edges key parent first ++ edges key parent second :=
  List.filterMap_append

variable {key parent}

theorem Rooted.append {items : List ν} (rooted : Rooted key parent items) {n : ν}
    (known : parent n = none ∨ ∃ p ∈ items, parent n = some (key p)) :
        Rooted key parent (items ++ [n]) := by
  intro before m after split
  rcases List.eq_nil_or_concat after with rfl | ⟨front, last, rfl⟩
  · obtain ⟨rfl, same⟩ := List.append_inj' split rfl
    rw [← List.singleton_inj.1 same]
    exact known
  · have cut : items ++ [n] = (before ++ m :: front) ++ [last] := by simpa using split
    exact rooted before m front (List.append_inj' cut rfl).1

theorem Rooted.induction {items : List ν} (rooted : Rooted key parent items) {holds : ν → Prop}
    (root : ∀ n ∈ items, parent n = none → holds n)
    (child : ∀ p n, n ∈ items → Parent key parent items p n → holds p → holds n) :
        ∀ n ∈ items, holds n := by
  have general : ∀ count before n after, before.length = count → items = before ++ n :: after →
      holds n := by
    intro count
    induction count using Nat.strongRecOn with
    | ind count ih =>
      intro before n after length split
      have member : n ∈ items := by simp [split]
      rcases rooted before n after split with none | ⟨p, early, same⟩
      · exact root n member none
      · obtain ⟨first, second, rfl⟩ := List.append_of_mem early
        have shorter : first.length < count := by
          rw [← length]
          simp
        have listed : p ∈ items := by simp [split]
        exact child p n member ⟨listed, same⟩ (ih _ shorter first p (second ++ n :: after) rfl
          (by simp [split]))
  intro n member
  obtain ⟨before, after, split⟩ := List.append_of_mem member
  exact general _ before n after rfl split

theorem item_unique {items : List ν} (distinct : (items.map key).Nodup) {m n : ν} (one : m ∈ items)
    (two : n ∈ items)
    (same : key m = key n) : m = n := List.inj_on_of_nodup_map distinct one two same

theorem above_iff {items : List ν} (distinct : (items.map key).Nodup) {p n : ν}
    (step : Parent key parent items p n)
    (m : ν) : Relation.TransGen (Parent key parent items) m n ↔ m = p ∨
        Relation.TransGen (Parent key parent items) m p := by
  have unique : ∀ q, Parent key parent items q n → q = p := by
    intro q other
    have same : key q = key p := Option.some.inj (other.2.symm.trans step.2)
    exact item_unique distinct other.1 step.1 same
  constructor
  · intro above
    cases above with
    | single last => exact .inl (unique _ last)
    | tail above last => exact .inr (unique _ last ▸ above)
  · rintro (rfl | above)
    · exact .single step
    · exact above.tail step

theorem above_root {items : List ν} {n : ν} (root : parent n = none) (m : ν) :
    ¬ Relation.TransGen (Parent key parent items) m n := by
  intro above
  cases above with
  | single last => simp [Parent, root] at last
  | tail _ last => simp [Parent, root] at last

/-- What is above an item of a part that has all its parents is the same in the part and in the whole. -/
theorem above_part {part whole : List ν} (rooted : Rooted key parent part) (subset : ∀ n ∈ part, n ∈ whole)
    (distinct : (whole.map key).Nodup) (within : (part.map key).Nodup) : ∀ n ∈ part, ∀ m,
      Relation.TransGen (Parent key parent whole) m n ↔ Relation.TransGen (Parent key parent part) m n := by
  refine rooted.induction (fun n _ none m => iff_of_false (above_root none m) (above_root none m)) ?_
  intro p n _ step ih m
  have wider : Parent key parent whole p n := ⟨subset p step.1, step.2⟩
  rw [above_iff distinct wider, above_iff within step, ih]

theorem mem_edges {items : List ν} {a b : α} :
    (a, b) ∈ edges key parent items ↔ ∃ n ∈ items, parent n = some a ∧ key n = b := by
  unfold edges
  rw [List.mem_filterMap]
  constructor
  · rintro ⟨n, member, taken⟩
    obtain ⟨p, same, pair⟩ := Option.map_eq_some_iff.1 taken
    obtain ⟨rfl, rfl⟩ := Prod.mk.inj pair
    exact ⟨n, member, same, rfl⟩
  · rintro ⟨n, member, same, rfl⟩
    exact ⟨n, member, by simp [same]⟩

theorem above_edges {items : List ν} (distinct : (items.map key).Nodup) {m n : ν} (first : m ∈ items)
    (last : n ∈ items) : Relation.TransGen (Parent key parent items) m n ↔
      Relation.TransGen (fun a b => (a, b) ∈ edges key parent items) (key m) (key n) := by
  constructor
  · intro above
    induction above with
    | single step => exact .single (mem_edges.2 ⟨_, last, step.2, rfl⟩)
    | tail _ step ih => exact (ih step.1).tail (mem_edges.2 ⟨_, last, step.2, rfl⟩)
  · intro path
    have general : ∀ b, Relation.TransGen (fun a b => (a, b) ∈ edges key parent items) (key m) b →
        ∃ k ∈ items, key k = b ∧ Relation.TransGen (Parent key parent items) m k := by
      intro b path
      induction path with
      | single edge =>
        obtain ⟨k, member, same, rfl⟩ := mem_edges.1 edge
        exact ⟨k, member, rfl, .single ⟨first, same⟩⟩
      | tail _ edge ih =>
        obtain ⟨p, there, rfl, above⟩ := ih
        obtain ⟨k, member, same, rfl⟩ := mem_edges.1 edge
        exact ⟨k, member, rfl, above.tail ⟨there, same⟩⟩
    obtain ⟨k, member, same, above⟩ := general _ path
    rwa [item_unique distinct member last same] at above

theorem reached {items : List ν} (rooted : Rooted key parent items) : ∀ n ∈ items, ∃ r ∈ items,
    parent r = none ∧
    Relation.ReflTransGen (fun a b => (a, b) ∈ edges key parent items) (key r) (key n) := by
  refine rooted.induction (fun n member none => ⟨n, member, none, .refl⟩) ?_
  rintro p n member ⟨-, same⟩ ⟨r, there, none, path⟩
  exact ⟨r, there, none, path.tail (mem_edges.2 ⟨n, member, same, rfl⟩)⟩

variable [DecidableEq α]

theorem incoming {items : List ν} (distinct : (items.map key).Nodup) {n : ν} (member : n ∈ items) :
    (edges key parent items).filter (fun e => e.2 = key n) =
        ((parent n).map fun p => (p, key n)).toList := by
  obtain ⟨before, after, rfl⟩ := List.append_of_mem member
  have none : ∀ others : List ν, key n ∉ others.map key →
      (edges key parent others).filter (fun e => e.2 = key n) = [] := by
    intro others absent
    refine List.filter_eq_nil_iff.2 fun e listed => ?_
    obtain ⟨m, there, taken⟩ := List.mem_filterMap.1 listed
    obtain ⟨p, -, rfl⟩ := Option.map_eq_some_iff.1 taken
    simp only [decide_eq_true_eq]
    intro same
    exact absent (same ▸ List.mem_map_of_mem there)
  rw [List.map_append, List.map_cons, List.nodup_append, List.nodup_cons] at distinct
  obtain ⟨-, ⟨later, -⟩, apart⟩ := distinct
  have earlier : key n ∉ before.map key := fun there => apart _ there _ List.mem_cons_self rfl
  have single : edges key parent (n :: after) = ((parent n).map fun p => (p, key n)).toList ++
      edges key parent after := by
    unfold edges
    cases found : parent n <;> simp [found]
  rw [edges_append, List.filter_append, none before earlier, single, List.filter_append, none after later]
  cases parent n <;> simp

end CppCoder.Support.Ancestry
