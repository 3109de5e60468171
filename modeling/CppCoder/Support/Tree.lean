import CppCoder.Support.Paths
import Mathlib.Data.List.Nodup

/-! Directory trees. A directory is the list of its entries in the order in which it is read; the
list and the subdirectories are one inductive type, so that walks recurse on their shape. -/

namespace CppCoder.Support.Tree
open Utf8 Paths

/-- Entries below which nothing can be reached. The status of a broken one cannot be queried; a locked
one is a directory that may not be read or searched. -/
inductive Leaf where
  | file (content : Bytes) (readable : Bool)
  | link (target : Path)
  | special
  | locked
  | broken
  deriving DecidableEq

inductive Dir where
  | nil
  | leaf (name : Name) (what : Leaf) (rest : Dir)
  | sub (name : Name) (entries : Dir) (rest : Dir)
  deriving DecidableEq

inductive Node where
  | leaf (what : Leaf)
  | dir (entries : Dir)

inductive Kind where
  | dir
  | leaf (what : Leaf)
  deriving DecidableEq

/-- What a place holds may only change in the content of a file. -/
def Kind.Alike (a b : Kind) : Prop :=
  a = b ∨ ∃ content readable content' readable',
    a = .leaf (.file content readable) ∧ b = .leaf (.file content' readable')

theorem Kind.Alike.trans {a b c : Kind} (one : a.Alike b) (two : b.Alike c) : a.Alike c := by
  rcases one with rfl | ⟨content, readable, content', readable', rfl, rfl⟩
  · exact two
  · rcases two with rfl | ⟨_, _, content'', readable'', _, rfl⟩
    · exact .inr ⟨_, _, _, _, rfl, rfl⟩
    · exact .inr ⟨_, _, _, _, rfl, rfl⟩

def Node.kind : Node → Kind
  | .leaf what => .leaf what
  | .dir _ => .dir

def Dir.names : Dir → List Name
  | .nil => []
  | .leaf n _ rest => n :: rest.names
  | .sub n _ rest => n :: rest.names

def Dir.Distinct : Dir → Prop
  | .nil => True
  | .leaf n _ rest => n ∉ rest.names ∧ rest.Distinct
  | .sub n entries rest => n ∉ rest.names ∧ entries.Distinct ∧ rest.Distinct

instance Dir.decidableDistinct : (d : Dir) → Decidable d.Distinct
  | .nil => inferInstanceAs (Decidable True)
  | .leaf _ _ rest =>
      have := Dir.decidableDistinct rest
      inferInstanceAs (Decidable (_ ∧ _))
  | .sub _ entries rest =>
      have := Dir.decidableDistinct entries
      have := Dir.decidableDistinct rest
      inferInstanceAs (Decidable (_ ∧ _))

def Dir.find : Dir → Name → Option Node
  | .nil, _ => none
  | .leaf m what rest, n => if m = n then some (.leaf what) else rest.find n
  | .sub m entries rest, n => if m = n then some (.dir entries) else rest.find n

def Dir.inside : Dir → List Name → Option Dir
  | d, [] => some d
  | d, n :: ns =>
      match d.find n with
      | some (.dir entries) => entries.inside ns
      | _ => none

def Dir.look : Dir → List Name → Option Kind
  | _, [] => some .dir
  | d, n :: ns =>
      match d.find n with
      | some (.dir entries) => entries.look ns
      | some (.leaf what) => if ns = [] then some (.leaf what) else none
      | none => none

def Node.entry (n : Name) : Node → Dir → Dir
  | .leaf what, rest => .leaf n what rest
  | .dir entries, rest => .sub n entries rest

def Dir.set (n : Name) (node : Node) : Dir → Dir
  | .nil => node.entry n .nil
  | .leaf m what rest => if m = n then node.entry n rest else .leaf m what (rest.set n node)
  | .sub m entries rest => if m = n then node.entry n rest else .sub m entries (rest.set n node)

def Dir.put (node : Node) : List Name → Dir → Dir
  | [], d => d
  | [n], d => d.set n node
  | n :: ns, d =>
      match d.find n with
      | some (.dir entries) => d.set n (.dir (entries.put node ns))
      | _ => d

theorem find_entry (n m : Name) (node : Node) (rest : Dir) :
    (node.entry n rest).find m = if n = m then some node else rest.find m := by
  cases node <;> rfl

theorem find_set (n m : Name) (node : Node) (d : Dir) :
    (d.set n node).find m = if n = m then some node else d.find m := by
  induction d with
  | nil => exact find_entry n m node .nil
  | leaf k what rest ih =>
    by_cases here : k = n
    · subst here
      simp only [Dir.set, if_true, find_entry, Dir.find]
      split_ifs <;> rfl
    · simp only [Dir.set, if_neg here, Dir.find, ih]
      by_cases there : n = m
      · subst there
        simp only [if_true, if_neg here]
      · simp only [if_neg there]
  | sub k entries rest _ ih =>
    by_cases here : k = n
    · subst here
      simp only [Dir.set, if_true, find_entry, Dir.find]
      split_ifs <;> rfl
    · simp only [Dir.set, if_neg here, Dir.find, ih]
      by_cases there : n = m
      · subst there
        simp only [if_true, if_neg here]
      · simp only [if_neg there]

theorem mem_names (d : Dir) (n : Name) : n ∈ d.names ↔ d.find n ≠ none := by
  induction d with
  | nil => simp [Dir.names, Dir.find]
  | leaf m what rest ih =>
    by_cases same : m = n
    · simp [Dir.names, Dir.find, same]
    · simp [Dir.names, Dir.find, same, ih, Ne.symm same]
  | sub m entries rest _ ih =>
    by_cases same : m = n
    · simp [Dir.names, Dir.find, same]
    · simp [Dir.names, Dir.find, same, ih, Ne.symm same]

theorem names_set (n m : Name) (node : Node) (d : Dir) :
    m ∈ (d.set n node).names ↔ m = n ∨ m ∈ d.names := by
  rw [mem_names, mem_names, find_set]
  split_ifs with same
  · simp [same]
  · simp [Ne.symm same]

def Node.Distinct : Node → Prop
  | .leaf _ => True
  | .dir entries => entries.Distinct

theorem distinct_entry {n : Name} {node : Node} {rest : Dir} (new : n ∉ rest.names)
    (inner : node.Distinct) (outer : rest.Distinct) : (node.entry n rest).Distinct := by
  cases node with
  | leaf what => exact ⟨new, outer⟩
  | dir entries => exact ⟨new, inner, outer⟩

theorem distinct_set {n : Name} {node : Node} {d : Dir} (distinct : d.Distinct)
    (inner : node.Distinct) : (d.set n node).Distinct := by
  induction d with
  | nil => exact distinct_entry (by simp [Dir.names]) inner trivial
  | leaf m what rest ih =>
    obtain ⟨new, later⟩ := distinct
    simp only [Dir.set]
    split_ifs with same
    · exact distinct_entry (same ▸ new) inner later
    · refine ⟨fun member => ?_, ih later⟩
      exact ((names_set n m node rest).1 member).elim same new
  | sub m entries rest _ ih =>
    obtain ⟨new, deep, later⟩ := distinct
    simp only [Dir.set]
    split_ifs with same
    · exact distinct_entry (same ▸ new) inner later
    · refine ⟨fun member => ?_, deep, ih later⟩
      exact ((names_set n m node rest).1 member).elim same new

theorem distinct_find {d entries : Dir} {n : Name} (distinct : d.Distinct)
    (found : d.find n = some (.dir entries)) : entries.Distinct := by
  induction d with
  | nil => simp [Dir.find] at found
  | leaf m what rest ih =>
    simp only [Dir.find] at found
    split_ifs at found with same
    · simp at found
    · exact ih distinct.2 found
  | sub m inner rest _ ih =>
    simp only [Dir.find] at found
    split_ifs at found with same
    · simp only [Option.some.injEq, Node.dir.injEq] at found
      exact found ▸ distinct.2.1
    · exact ih distinct.2.2 found

theorem distinct_put {node : Node} (inner : node.Distinct) (ns : List Name) {d : Dir}
    (distinct : d.Distinct) : (d.put node ns).Distinct := by
  induction ns generalizing d with
  | nil => exact distinct
  | cons n rest ih =>
    cases rest with
    | nil => exact distinct_set distinct inner
    | cons m more =>
      simp only [Dir.put]
      cases found : d.find n with
      | none => exact distinct
      | some old =>
        cases old with
        | leaf what => exact distinct
        | dir entries => exact distinct_set distinct (ih (distinct_find distinct found))

theorem look_append_singleton (d : Dir) (ns : List Name) (n : Name) :
    d.look (ns ++ [n]) = (d.inside ns).bind fun e => (e.find n).map Node.kind := by
  induction ns generalizing d with
  | nil =>
    simp only [List.nil_append, Dir.look, Dir.inside, Option.bind_some]
    cases d.find n with
    | none => rfl
    | some node => cases node <;> rfl
  | cons m rest ih =>
    simp only [List.cons_append, Dir.look, Dir.inside]
    cases d.find m with
    | none => rfl
    | some node =>
      cases node with
      | leaf what => simp
      | dir entries => exact ih entries

theorem look_dir_iff (d : Dir) (ns : List Name) : d.look ns = some .dir ↔ (d.inside ns).isSome := by
  induction ns generalizing d with
  | nil => simp [Dir.look, Dir.inside]
  | cons n rest ih =>
    simp only [Dir.look, Dir.inside]
    cases d.find n with
    | none => simp
    | some node =>
      cases node with
      | leaf what => by_cases last : rest = [] <;> simp [last]
      | dir entries => exact ih entries

def Node.Childless (node : Node) : Prop := ∀ entries, node = .dir entries → entries = .nil

theorem inside_cons {d e : Dir} {n : Name} {ns : List Name} (found : d.inside (n :: ns) = some e) :
    ∃ entries, d.find n = some (.dir entries) ∧ entries.inside ns = some e := by
  simp only [Dir.inside] at found
  cases here : d.find n with
  | none => simp [here] at found
  | some node =>
    cases node with
    | leaf what => simp [here] at found
    | dir entries =>
      rw [here] at found
      exact ⟨entries, rfl, found⟩

theorem look_put {node : Node} (childless : node.Childless) (ns : List Name) (n : Name) {d e : Dir}
    (parent : d.inside ns = some e) (free : ∀ entries, e.find n ≠ some (.dir entries))
    (place : List Name) :
    (d.put node (ns ++ [n])).look place =
      if place = ns ++ [n] then some node.kind else d.look place := by
  induction ns generalizing d place with
  | nil =>
    simp only [Dir.inside, Option.some.injEq] at parent
    subst parent
    cases place with
    | nil => simp [Dir.look]
    | cons m rest =>
      simp only [List.nil_append, Dir.put, Dir.look, find_set, List.cons.injEq]
      by_cases here : n = m
      · subst here
        cases node with
        | leaf what =>
          by_cases last : rest = []
          · simp [last, Node.kind]
          · cases found : d.find n with
            | none => simp [last]
            | some old =>
              cases old with
              | leaf other => simp [last]
              | dir entries => exact absurd found (free entries)
        | dir entries =>
          rw [childless entries rfl]
          cases rest with
          | nil => simp [Dir.look, Node.kind]
          | cons k more =>
            cases found : d.find n with
            | none => simp [Dir.look, Dir.find]
            | some old =>
              cases old with
              | leaf other => simp [Dir.look, Dir.find]
              | dir entries => exact absurd found (free entries)
      · rw [if_neg here, if_neg (fun same => here same.1.symm)]
  | cons m more ih =>
    obtain ⟨entries, found, deeper⟩ := inside_cons parent
    obtain ⟨k, rest, split⟩ : ∃ k rest, more ++ [n] = k :: rest := by
      cases more with
      | nil => exact ⟨n, [], rfl⟩
      | cons k rest => exact ⟨k, rest ++ [n], rfl⟩
    have step : d.put node (m :: more ++ [n]) = d.set m (.dir (entries.put node (more ++ [n]))) := by
      rw [List.cons_append, split, Dir.put]
      · simp only [found]
      · simp
    rw [step]
    cases place with
    | nil => simp [Dir.look]
    | cons p rest =>
      simp only [Dir.look, find_set, List.cons_append, List.cons.injEq]
      by_cases here : m = p
      · subst here
        simp only [if_true, true_and, found]
        exact ih deeper rest
      · rw [if_neg here, if_neg (fun same => here same.1.symm)]

def Dir.linkless : Dir → Bool
  | .nil => true
  | .leaf _ (.link _) _ => false
  | .leaf _ _ rest => rest.linkless
  | .sub _ entries rest => entries.linkless && rest.linkless

def Node.linkless : Node → Bool
  | .leaf (.link _) => false
  | .leaf _ => true
  | .dir entries => entries.linkless

theorem find_linkless {d : Dir} (plain : d.linkless = true) {n : Name} {node : Node}
    (found : d.find n = some node) : node.linkless = true := by
  induction d with
  | nil => cases found
  | leaf m what rest ih =>
    simp only [Dir.find] at found
    split_ifs at found with same
    · cases found
      cases what <;> first | rfl | cases plain
    · refine ih ?_ found
      cases what <;> first | exact plain | cases plain
  | sub m entries rest _ ih =>
    simp only [Dir.linkless, Bool.and_eq_true] at plain
    simp only [Dir.find] at found
    split_ifs at found with same
    · cases found
      exact plain.1
    · exact ih plain.2 found

theorem look_linkless {d : Dir} (plain : d.linkless = true) (ns : List Name) (target : Path) :
    d.look ns ≠ some (.leaf (.link target)) := by
  induction ns generalizing d with
  | nil => simp [Dir.look]
  | cons n rest ih =>
    simp only [Dir.look]
    cases found : d.find n with
    | none => simp
    | some node =>
      have inner := find_linkless plain found
      cases node with
      | dir entries => exact ih inner
      | leaf what =>
        cases what with
        | link other => cases inner
        | _ => by_cases last : rest = [] <;> simp [last]

/-! ### Everything below a directory -/

def Dir.paths : Dir → List (List Name)
  | .nil => []
  | .leaf n _ rest => [n] :: rest.paths
  | .sub n entries rest => [n] :: entries.paths.map (n :: ·) ++ rest.paths

theorem paths_ne_nil {d : Dir} {ns : List Name} (member : ns ∈ d.paths) : ns ≠ [] := by
  rintro rfl
  induction d with
  | nil => simp [Dir.paths] at member
  | leaf n what rest ih => exact ih (by simpa [Dir.paths] using member)
  | sub n entries rest _ ih => exact ih (by simpa [Dir.paths] using member)

theorem head_of_paths {d : Dir} {n : Name} {ns : List Name} (member : n :: ns ∈ d.paths) :
    n ∈ d.names := by
  induction d with
  | nil => simp [Dir.paths] at member
  | leaf m what rest ih =>
    simp only [Dir.paths, List.mem_cons, List.cons.injEq] at member
    exact List.mem_cons.2 (member.imp And.left ih)
  | sub m entries rest _ ih =>
    simp only [Dir.paths, List.cons_append, List.mem_cons, List.cons.injEq, List.mem_append,
      List.mem_map] at member
    rcases member with same | ⟨inner, _, rfl, _⟩ | later
    · exact List.mem_cons.2 (.inl same.1)
    · exact List.mem_cons_self
    · exact List.mem_cons.2 (.inr (ih later))

theorem mem_paths {d : Dir} (distinct : d.Distinct) (ns : List Name) :
    ns ∈ d.paths ↔ ns ≠ [] ∧ d.look ns ≠ none := by
  induction d generalizing ns with
  | nil => cases ns <;> simp [Dir.paths, Dir.look, Dir.find]
  | leaf m what rest ih =>
    cases ns with
    | nil => exact iff_of_false (fun member => paths_ne_nil member rfl) (by simp)
    | cons n more =>
      simp only [Dir.paths, List.mem_cons, List.cons.injEq, ih distinct.2]
      by_cases same : m = n
      · subst same
        have absent : rest.find m = none := by
          simpa [mem_names] using distinct.1
        by_cases last : more = [] <;> simp [Dir.look, Dir.find, absent, last]
      · simp [Dir.look, Dir.find, same, Ne.symm same]
  | sub m entries rest inner ih =>
    cases ns with
    | nil => exact iff_of_false (fun member => paths_ne_nil member rfl) (by simp)
    | cons n more =>
      simp only [Dir.paths, List.cons_append, List.mem_cons, List.mem_append, List.mem_map,
        List.cons.injEq, ih distinct.2.2, inner distinct.2.1]
      by_cases same : m = n
      · subst same
        have absent : rest.find m = none := by
          simpa [mem_names] using distinct.1
        cases more with
        | nil => simp [Dir.look, Dir.find]
        | cons k deeper => simp [Dir.look, Dir.find, absent]
      · simp [Dir.look, Dir.find, same, Ne.symm same]

theorem paths_nodup {d : Dir} (distinct : d.Distinct) : d.paths.Nodup := by
  induction d with
  | nil => exact List.nodup_nil
  | leaf m what rest ih =>
    exact List.nodup_cons.2 ⟨fun member => distinct.1 (head_of_paths member), ih distinct.2⟩
  | sub m entries rest inner ih =>
    have deep : (entries.paths.map (m :: ·)).Nodup :=
      List.Nodup.map (List.cons_injective) (inner distinct.2.1)
    refine List.nodup_append.2 ⟨List.nodup_cons.2 ⟨?_, deep⟩, ih distinct.2.2, ?_⟩
    · simp only [List.mem_map, List.cons.injEq, true_and, exists_eq_right]
      exact fun member => paths_ne_nil member rfl
    · rintro first member _ later rfl
      simp only [List.mem_cons, List.mem_map] at member
      rcases member with rfl | ⟨ns, _, rfl⟩
      · exact distinct.1 (head_of_paths later)
      · exact distinct.1 (head_of_paths later)

theorem look_inside {d e : Dir} {outer : List Name} (found : d.inside outer = some e) (ns : List Name) :
    d.look (outer ++ ns) = e.look ns := by
  induction outer generalizing d with
  | nil =>
    cases found
    rfl
  | cons n rest ih =>
    obtain ⟨entries, here, deeper⟩ := inside_cons found
    simp only [List.cons_append, Dir.look, here]
    exact ih deeper

theorem inside_append {d e : Dir} {outer : List Name} (found : d.inside outer = some e) (ns : List Name) :
    d.inside (outer ++ ns) = e.inside ns := by
  induction outer generalizing d with
  | nil =>
    cases found
    rfl
  | cons n rest ih =>
    obtain ⟨entries, here, deeper⟩ := inside_cons found
    simp only [List.cons_append, Dir.inside, here]
    exact ih deeper

theorem distinct_inside {d e : Dir} {outer : List Name} (distinct : d.Distinct)
    (found : d.inside outer = some e) : e.Distinct := by
  induction outer generalizing d with
  | nil =>
    cases found
    exact distinct
  | cons n rest ih =>
    obtain ⟨entries, here, deeper⟩ := inside_cons found
    exact ih (distinct_find distinct here) deeper

end CppCoder.Support.Tree
