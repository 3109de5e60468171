import CppCoder.Support.Tree

/-! A file system with symbolic links: how a path is resolved, canonicalised, created on the way
and opened for writing. All links on the way of one path count towards one bound, so loops are
detected. -/

namespace CppCoder.Support.Disk
open Utf8 Paths Support.Tree

structure FileSystem where
  tree : Dir
  distinct : tree.Distinct
  /-- Where relative paths start. -/
  cwd : Loc
  /-- The longest component the system accepts. -/
  nameMax : Nat := 255
  /-- The length from which on the system refuses a path. -/
  pathMax : Nat := 4096

inductive Errno where
  | noEntry
  | notDirectory
  | isDirectory
  | exists
  | tooManyLinks
  | nameTooLong
  | accessDenied
  | io
  deriving DecidableEq

def linkMax : Nat := 40

/-- The components from one place to another, both read from the root: up, then down. -/
def relativeParts : List Name → List Name → List Bytes
  | b :: base, n :: names =>
      if b = n then relativeParts base names
      else (b :: base).map (fun _ => ascii "..") ++ (n :: names).map Name.bytes
  | base, names => base.map (fun _ => ascii "..") ++ names.map Name.bytes

/-- `std::filesystem::relative` of two places. -/
def relativeTo (base loc : Loc) : List Bytes :=
  match relativeParts base.reverse loc.reverse with
  | [] => [ascii "."]
  | parts => parts

theorem relativeParts_spec (base names : List Name) :
    ∃ common up down, base = common ++ up ∧ names = common ++ down ∧
      relativeParts base names = up.map (fun _ => ascii "..") ++ down.map Name.bytes := by
  induction base generalizing names with
  | nil => exact ⟨[], [], names, rfl, rfl, rfl⟩
  | cons b rest ih =>
    cases names with
    | nil => exact ⟨[], b :: rest, [], rfl, rfl, rfl⟩
    | cons n more =>
      simp only [relativeParts]
      split_ifs with same
      · subst same
        obtain ⟨common, up, down, left, right, parts⟩ := ih more
        exact ⟨b :: common, up, down, by rw [left]; rfl, by rw [right]; rfl, parts⟩
      · exact ⟨[], b :: rest, n :: more, rfl, rfl, rfl⟩

theorem relativeParts_injective {base a b : List Name}
    (same : relativeParts base a = relativeParts base b) :
    a = b := by
  obtain ⟨common, up, down, rfl, rfl, parts⟩ := relativeParts_spec base a
  obtain ⟨common', up', down', again, rfl, parts'⟩ := relativeParts_spec (common ++ up) b
  rw [parts, parts'] at same
  -- the steps up are the leading ones: no name is spelled with two dots
  have steps : ∀ up down : List Name,
      ((up.map fun _ => ascii "..") ++ down.map Name.bytes).takeWhile
        (fun piece => decide (piece = ascii "..")) =
        up.map fun _ => ascii ".." := by
    intro up down
    rw [List.takeWhile_append_of_pos (by simp)]
    cases down with
    | nil => simp
    | cons n rest => simp [n.proper.2.2.1]
  have ups := congrArg (List.takeWhile fun piece => decide (piece = ascii "..")) same
  rw [steps, steps] at ups
  have length : up.length = up'.length := by simpa using congrArg List.length ups
  rw [ups] at same
  have downs := List.append_cancel_left same
  have named : Function.Injective Name.bytes := by
    rintro ⟨x, _⟩ ⟨y, _⟩ rfl
    rfl
  have equal := List.append_inj' again length
  rw [equal.1, named.list_map downs]

theorem relativeTo_injective {base a b : Loc} (same : relativeTo base a = relativeTo base b) : a = b := by
  have dotless : ∀ names, relativeParts base.reverse names ≠ [ascii "."] := by
    intro names single
    obtain ⟨_, up, down, -, -, parts⟩ := relativeParts_spec base.reverse names
    rw [single] at parts
    have member : ascii "." ∈ up.map (fun _ => ascii "..") ++ down.map Name.bytes :=
      parts ▸ List.mem_singleton_self _
    rcases List.mem_append.1 member with dots | name
    · obtain ⟨_, _, impossible⟩ := List.mem_map.1 dots
      exact absurd impossible (by decide)
    · obtain ⟨n, _, impossible⟩ := List.mem_map.1 name
      exact n.proper.2.1 impossible
  have parts : relativeParts base.reverse a.reverse = relativeParts base.reverse b.reverse := by
    unfold relativeTo at same
    split at same <;> split at same
    · simp [*]
    · exact absurd same.symm (dotless _)
    · exact absurd same (dotless _)
    · exact same
  exact List.reverse_injective (relativeParts_injective parts)

theorem spell_relativeTo_injective {base a b : Loc}
    (same : spell (relativeTo base a) = spell (relativeTo base b)) : a = b := by
  have nonempty : ∀ loc, relativeTo base loc ≠ [] := by
    intro loc
    unfold relativeTo
    split <;> simp_all
  have whole : ∀ loc, ∀ piece ∈ relativeTo base loc, slash ∉ piece := by
    intro loc piece member
    have parts : piece = ascii "." ∨ piece ∈ relativeParts base.reverse loc.reverse := by
      unfold relativeTo at member
      split at member
      · exact .inl (by simpa using member)
      · exact .inr member
    rcases parts with rfl | member
    · decide
    · obtain ⟨_, up, down, -, -, parts⟩ := relativeParts_spec base.reverse loc.reverse
      rw [parts] at member
      rcases List.mem_append.1 member with dots | name
      · obtain ⟨_, _, rfl⟩ := List.mem_map.1 dots
        decide
      · obtain ⟨n, _, rfl⟩ := List.mem_map.1 name
        exact n.plain.2
  have split := congrArg pieces same
  rw [pieces_spell (nonempty a) (whole a), pieces_spell (nonempty b) (whole b)] at split
  exact relativeTo_injective split

namespace FileSystem

def kind (fs : FileSystem) (loc : Loc) : Option Kind := fs.tree.look loc.reverse

def start (fs : FileSystem) (p : Path) : Loc := if p.absolute then [] else fs.cwd

inductive Turn where
  | place (loc : Loc)
  | link (target : Path)
  deriving DecidableEq

/-- One component, from a place. A slash at the end asks for a directory but does not search it. -/
def step (fs : FileSystem) (place : Loc) (part : Part) : Except Errno Turn :=
  match fs.kind place, part with
  | some .dir, .trailing => .ok (.place place)
  | some .dir, .dot => .ok (.place place)
  | some .dir, .dotdot => .ok (.place place.tail)
  | some .dir, .name n =>
      if fs.nameMax < n.bytes.length then .error .nameTooLong
      else match fs.kind (n :: place) with
        | none => .error .noEntry
        | some (.leaf (.link target)) => .ok (.link target)
        | some (.leaf .broken) => .error .io
        | some _ => .ok (.place (n :: place))
  | some (.leaf .locked), .trailing => .ok (.place place)
  | some (.leaf .locked), _ => .error .accessDenied
  | _, _ => .error .notDirectory

def origin (place : Loc) (target : Path) : Loc := if target.absolute then [] else place

/-- Goes through components; `follow` takes over at a link, with what is left behind it. -/
def walkWith (fs : FileSystem) (links : Nat)
    (follow : Loc → Path → List Part → Except Errno (Loc × Nat)) :
    Loc → List Part → Except Errno (Loc × Nat)
  | place, [] => .ok (place, links)
  | place, part :: rest =>
      match fs.step place part with
      | .error e => .error e
      | .ok (.place next) => fs.walkWith links follow next rest
      | .ok (.link target) => follow place target rest

/-- Where components lead, and how many of the links that may be followed are left then. -/
def walk (fs : FileSystem) : Nat → Loc → List Part → Except Errno (Loc × Nat)
  | 0 => fs.walkWith 0 fun _ _ _ => .error .tooManyLinks
  | links + 1 => fs.walkWith (links + 1) fun place target rest =>
      if target.asked = [] then .error .noEntry
      else fs.walk links (origin place target) (target.parts ++ rest)

def ask (fs : FileSystem) (p : Path) : Except Errno (List Part) :=
  if p.asked = [] then .error .noEntry
  else if fs.pathMax ≤ p.asked.length then .error .nameTooLong
  else .ok p.parts

/-- `status`: the place a path leads to, all links followed. -/
def resolve (fs : FileSystem) (p : Path) : Except Errno Loc :=
  match fs.ask p with
  | .error e => .error e
  | .ok parts => (fs.walk linkMax (fs.start p) parts).map Prod.fst

/-- How far a path exists: the links left, the place reached, and the components behind it. -/
structure Reached where
  links : Nat
  place : Loc
  rest : List Part

def existingPrefix (fs : FileSystem) : Nat → Loc → List Part → Reached
  | links, place, [] => ⟨links, place, []⟩
  | links, place, part :: rest =>
      match fs.walk links place [part] with
      | .ok (next, left) => fs.existingPrefix left next rest
      | .error _ => ⟨links, place, part :: rest⟩

/-- The part of a path that exists. -/
def existing (fs : FileSystem) (p : Path) : List Part :=
  p.parts.take (p.parts.length - (fs.existingPrefix linkMax (fs.start p) p.parts).rest.length)

/-- What `weakly_canonical` returns, which keeps what does not exist as it is written, null bytes included.
A status query may fail for a reason other than that the entry was not found. -/
def canonicalForm (fs : FileSystem) (p : Path) : Except Errno Path :=
  match fs.resolve p with
  | .ok loc => .ok loc.toPath
  | .error e =>
      if e = .noEntry ∨ e = .notDirectory then
        let reached := fs.existingPrefix linkMax (fs.start p) p.parts
        if p.absolute = false ∧ fs.existing p = [] then .ok (lexicallyNormal p)
        else .ok (lexicallyNormal ⟨slash :: spell
          (reached.place.reverse.map Name.bytes ++ (components p.text).drop (fs.existing p).length)⟩)
      else .error e

def namedBy (place : Loc) : Part → List Loc
  | .name n => [n :: place]
  | _ => []

/-- The entries that are gone through on the way of a walk, links included. -/
def passedWith (fs : FileSystem) (follow : Loc → Path → List Part → List Loc) : Loc → List Part → List Loc
  | _, [] => []
  | place, part :: rest =>
      match fs.step place part with
      | .error _ => []
      | .ok (.place next) => namedBy place part ++ fs.passedWith follow next rest
      | .ok (.link target) => namedBy place part ++ follow place target rest

def passed (fs : FileSystem) : Nat → Loc → List Part → List Loc
  | 0 => fs.passedWith fun _ _ _ => []
  | links + 1 => fs.passedWith fun place target rest =>
      fs.passed links (origin place target) (target.parts ++ rest)

/-- `realpath` asks for every entry on the way by the whole path from the top. -/
def spells (fs : FileSystem) (place : Loc) (parts : List Part) : Bool :=
  (place :: fs.passed linkMax place parts).all fun loc => decide (loc.toPath.text.length < fs.pathMax)

/-- What exists of a path is canonicalised, unless the path is relative and nothing of it exists. -/
def spelled (fs : FileSystem) (p : Path) : Bool :=
  !p.absolute && (fs.existing p).isEmpty || fs.spells (fs.start p) (fs.existing p)

/-- `weakly_canonical`, the overload that throws. -/
def weaklyCanonical (fs : FileSystem) (p : Path) : Except Errno Path :=
  match fs.canonicalForm p with
  | .error e => .error e
  | .ok form => if fs.spelled p then .ok form else .error .nameTooLong

def put (fs : FileSystem) (loc : Loc) (node : Node) (inner : node.Distinct) : FileSystem :=
  { fs with tree := fs.tree.put node loc.reverse, distinct := distinct_put inner _ fs.distinct }

def mkdir (fs : FileSystem) (loc : Loc) : FileSystem := fs.put loc (.dir .nil) trivial

def writeFile (fs : FileSystem) (loc : Loc) (content : Bytes) : FileSystem :=
  let readable := match fs.kind loc with
    | some (.leaf (.file _ readable)) => readable
    | _ => true
  fs.put loc (.leaf (.file content readable)) trivial

structure Made where
  fs : FileSystem
  created : List Loc
  ended : Except Errno (Loc × Nat)

abbrev Refusal := Option (Nat × Errno)

def Refusal.now : Refusal → Option Errno
  | some (0, e) => some e
  | _ => none

def Refusal.later : Refusal → Refusal := Option.map fun (made, e) => (made - 1, e)

/-- `mkdir` for one component after another below the last directory that exists. An entry that is
there already is accepted when it is, or leads to, a directory. -/
def makeBelow (fs : FileSystem) : Refusal → Nat → Loc → List Part → Made
  | _, links, place, [] => ⟨fs, [], .ok (place, links)⟩
  | refusal, links, place, .dot :: rest => fs.makeBelow refusal links place rest
  | refusal, links, place, .trailing :: rest => fs.makeBelow refusal links place rest
  | refusal, links, place, .dotdot :: rest => fs.makeBelow refusal links place.tail rest
  | refusal, links, place, .name n :: rest =>
      if fs.nameMax < n.bytes.length then ⟨fs, [], .error .nameTooLong⟩
      else match fs.kind (n :: place) with
        | none =>
            match refusal.now with
            | some e => ⟨fs, [], .error e⟩
            | none =>
                let made := (fs.mkdir (n :: place)).makeBelow refusal.later links (n :: place) rest
                { made with created := (n :: place) :: made.created }
        | some _ =>
            match fs.walk links place [.name n] with
            | .error _ => ⟨fs, [], .error .exists⟩
            | .ok (next, left) =>
                match fs.kind next with
                | some .dir => fs.makeBelow refusal left next rest
                | some (.leaf .locked) =>
                    ⟨fs, [], if rest = [] then .ok (next, left) else .error .accessDenied⟩
                | _ => ⟨fs, [], .error .exists⟩

/-- How many of the directories on a path `create_directories` finds missing. -/
def missing (fs : FileSystem) (p : Path) : Nat :=
  match (fs.existingPrefix linkMax (fs.start p) p.parts).rest with
  | [] => 0
  | part :: rest => ((components p.text).drop (p.parts.length - (part :: rest).length)).countP
      fun piece => piece ≠ [] ∧ piece ≠ ascii "." ∧ piece ≠ ascii ".."

def missingMax : Nat := 1000

/-- `create_directories`. -/
def createDirectories (fs : FileSystem) (refusal : Refusal) (p : Path) : Made :=
  match fs.ask p with
  | .error e => ⟨fs, [], .error e⟩
  | .ok parts =>
      match fs.existingPrefix linkMax (fs.start p) parts with
      | ⟨links, place, []⟩ =>
          ⟨fs, [], match fs.kind place with
            | some .dir => .ok (place, links)
            | some (.leaf .locked) => .ok (place, links)
            | _ => .error .notDirectory⟩
      | ⟨links, place, part :: rest⟩ =>
          match fs.walk links place [part] with
          | .ok _ => ⟨fs, [], .error .noEntry⟩
          | .error e =>
              if ¬ (e = .noEntry ∨ e = .notDirectory) then ⟨fs, [], .error e⟩
              else if missingMax < fs.missing p then ⟨fs, [], .error .nameTooLong⟩
              else if fs.kind place = some .dir then fs.makeBelow refusal links place (part :: rest)
              else ⟨fs, [], .error e⟩

def openPlace (fs : FileSystem) (loc : Loc) : Except Errno Loc :=
  match fs.kind loc with
  | some .dir => .error .isDirectory
  | some (.leaf .locked) => .error .isDirectory
  | _ => .ok loc

/-- A component of a path that is opened leads nowhere. The last name is that of a new file. -/
def openMissing (place : Loc) : Errno → Part → List Part → Except Errno Loc
  | .noEntry, .name n, [] => .ok (n :: place)
  | e, _, _ => .error e

/-- Goes through components to the file that is opened for writing, missing or not. A link is followed
even when its target does not exist. -/
def openWith (fs : FileSystem) (follow : Loc → Path → List Part → Except Errno Loc) :
    Loc → List Part → Except Errno Loc
  | _, [] => .error .isDirectory
  | place, part :: rest =>
      match fs.step place part with
      | .ok (.link target) => follow place target rest
      | .ok (.place next) => if rest = [] then fs.openPlace next else fs.openWith follow next rest
      | .error e => openMissing place e part rest

def openFrom (fs : FileSystem) : Nat → Loc → List Part → Except Errno Loc
  | 0 => fs.openWith fun _ _ _ => .error .tooManyLinks
  | links + 1 => fs.openWith fun place target rest =>
      if target.asked = [] then .error .noEntry
      else fs.openFrom links (origin place target) (target.parts ++ rest)

def openForWriting (fs : FileSystem) (p : Path) : Except Errno Loc :=
  match fs.ask p with
  | .error e => .error e
  | .ok parts => fs.openFrom linkMax (fs.start p) parts

@[simp] theorem kind_nil (fs : FileSystem) : fs.kind [] = some .dir := rfl

theorem kind_parent {fs : FileSystem} {n : Name} {up : Loc} (there : fs.kind (n :: up) ≠ none) :
    fs.kind up = some .dir := by
  unfold kind at *
  rw [List.reverse_cons, look_append_singleton] at there
  rw [look_dir_iff]
  cases found : fs.tree.inside up.reverse with
  | none => simp [found] at there
  | some e => rfl

def Vacant (fs : FileSystem) (loc : Loc) : Prop := fs.kind loc ≠ some .dir

theorem kind_put {fs : FileSystem} {n : Name} {up : Loc} {node : Node} (inner : node.Distinct)
    (childless : node.Childless) (parent : fs.kind up = some .dir) (vacant : fs.Vacant (n :: up))
    (loc : Loc) : (fs.put (n :: up) node inner).kind loc =
      if loc = n :: up then some node.kind else fs.kind loc := by
  unfold kind at parent
  rw [look_dir_iff, Option.isSome_iff_exists] at parent
  obtain ⟨e, found⟩ := parent
  have free : ∀ entries, e.find n ≠ some (.dir entries) := by
    intro entries same
    apply vacant
    unfold kind
    rw [List.reverse_cons, look_append_singleton, found, Option.bind_some, same]
    rfl
  have moved := look_put childless up.reverse n found free loc.reverse
  simp only [kind, put, List.reverse_cons]
  rw [moved]
  have same : loc.reverse = up.reverse ++ [n] ↔ loc = n :: up := by
    rw [← List.reverse_cons, List.reverse_inj]
  simp only [same]

theorem kind_mkdir {fs : FileSystem} {n : Name} {up : Loc} (parent : fs.kind up = some .dir)
    (absent : fs.kind (n :: up) = none) (loc : Loc) :
    (fs.mkdir (n :: up)).kind loc = if loc = n :: up then some .dir else fs.kind loc := by
  have inner : (Node.dir .nil).Distinct := trivial
  refine kind_put inner ?_ parent (by simp [Vacant, absent]) loc
  intro entries same
  cases same
  rfl

theorem kind_writeFile {fs : FileSystem} {n : Name} {up : Loc} {content : Bytes}
    (parent : fs.kind up = some .dir) (vacant : fs.Vacant (n :: up)) :
    ∃ readable, ∀ loc, (fs.writeFile (n :: up) content).kind loc =
      if loc = n :: up then some (.leaf (.file content readable)) else fs.kind loc := by
  have inner (readable : Bool) : (Node.leaf (.file content readable)).Distinct := trivial
  refine ⟨_, fun loc => kind_put (inner _) ?_ parent vacant loc⟩
  intro entries same
  cases same


/-! ### Resolution -/

variable {fs fs' : FileSystem}

@[simp] theorem walk_nil (links : Nat) (place : Loc) : fs.walk links place [] = .ok (place, links) := by
  cases links <;> rfl

theorem walk_failed {links : Nat} {place : Loc} {part : Part} {rest : List Part} {e : Errno}
    (failed : fs.step place part = .error e) : fs.walk links place (part :: rest) = .error e := by
  cases links <;> simp only [walk, walkWith, failed]

theorem walk_onward {links : Nat} {place next : Loc} {part : Part} {rest : List Part}
    (went : fs.step place part = .ok (.place next)) :
    fs.walk links place (part :: rest) = fs.walk links next rest := by
  cases links <;> simp only [walk, walkWith, went]

theorem walk_barred {place : Loc} {part : Part} {rest : List Part} {target : Path}
    (met : fs.step place part = .ok (.link target)) :
    fs.walk 0 place (part :: rest) = .error .tooManyLinks := by
  simp only [walk, walkWith, met]

theorem walk_linked {links : Nat} {place : Loc} {part : Part} {rest : List Part} {target : Path}
    (met : fs.step place part = .ok (.link target)) :
    fs.walk (links + 1) place (part :: rest) = if target.asked = [] then .error .noEntry
      else fs.walk links (origin place target) (target.parts ++ rest) := by
  simp only [walk, walkWith, met]

/-- One case for each way in which a component is left behind; a link costs one of the links left. -/
@[elab_as_elim]
theorem walk_induction (fs : FileSystem) {motive : Nat → Loc → List Part → Prop}
    (done : ∀ links place, motive links place [])
    (failed : ∀ links place part rest e, fs.step place part = .error e → motive links place (part :: rest))
    (onward : ∀ links place part rest next, fs.step place part = .ok (.place next) →
      motive links next rest → motive links place (part :: rest))
    (barred : ∀ place part rest target, fs.step place part = .ok (.link target) →
      motive 0 place (part :: rest))
    (linked : ∀ links place part rest target, fs.step place part = .ok (.link target) →
      motive links (origin place target) (target.parts ++ rest) → motive (links + 1) place (part :: rest))
    (links : Nat) (place : Loc) (parts : List Part) : motive links place parts := by
  induction links generalizing place parts with
  | zero =>
    induction parts generalizing place with
    | nil => exact done 0 place
    | cons part rest ih =>
      cases result : fs.step place part with
      | error e => exact failed _ _ _ _ e result
      | ok turn =>
        cases turn with
        | place next => exact onward _ _ _ _ next result (ih next)
        | link target => exact barred _ _ _ target result
  | succ links outer =>
    induction parts generalizing place with
    | nil => exact done _ place
    | cons part rest ih =>
      cases result : fs.step place part with
      | error e => exact failed _ _ _ _ e result
      | ok turn =>
        cases turn with
        | place next => exact onward _ _ _ _ next result (ih next)
        | link target => exact linked _ _ _ _ target result (outer _ _)

theorem walk_append (links : Nat) (place : Loc) (first second : List Part) :
    fs.walk links place (first ++ second) =
      match fs.walk links place first with
      | .ok (middle, left) => fs.walk left middle second
      | .error e => .error e := by
  induction links, place, first using walk_induction fs with
  | done links place => simp
  | failed links place part rest e result => rw [List.cons_append, walk_failed result, walk_failed result]
  | onward links place part rest next result ih =>
    rw [List.cons_append, walk_onward result, walk_onward result, ih]
  | barred place part rest target result => rw [List.cons_append, walk_barred result, walk_barred result]
  | linked links place part rest target result ih =>
    rw [List.cons_append, walk_linked result, walk_linked result]
    split_ifs
    · rfl
    · rw [← ih, List.append_assoc]

theorem walk_append_ok {links left : Nat} {place middle : Loc} {first : List Part} (second : List Part)
    (walked : fs.walk links place first = .ok (middle, left)) :
    fs.walk links place (first ++ second) = fs.walk left middle second := by
  rw [walk_append, walked]

theorem step_dir {place : Loc} {part : Part} {turn : Turn} (ok : fs.step place part = .ok turn) :
    fs.kind place = some .dir ∨ fs.kind place = some (.leaf .locked) ∧ part = .trailing ∧
      turn = .place place := by
  unfold step at ok
  split at ok <;> first
    | exact .inl ‹_›
    | exact .inr ⟨‹_›, rfl, (Except.ok.inj ok).symm⟩
    | cases ok

/-- A place that has the entries of a directory, or would have if it could be searched. -/
def Directory (fs : FileSystem) (loc : Loc) : Prop :=
  fs.kind loc = some .dir ∨ fs.kind loc = some (.leaf .locked)

def Takes (fs : FileSystem) (loc : Loc) : Prop :=
  fs.kind loc = some (.leaf .special) ∨ ∃ content readable, fs.kind loc =
    some (.leaf (.file content readable))

theorem Takes.not_directory {loc : Loc} (takes : fs.Takes loc) : ¬ fs.Directory loc := by
  rintro (here | here) <;> rcases takes with there | ⟨content, readable, there⟩ <;> simp [here] at there

theorem kind_tail {place : Loc} (here : fs.kind place = some .dir) : fs.kind place.tail = some .dir := by
  cases place with
  | nil => rfl
  | cons n up =>
    have there : fs.kind (n :: up) ≠ none := by simp [here]
    exact kind_parent there

theorem step_name {place : Loc} (here : fs.kind place = some .dir) (n : Name) :
    fs.step place (.name n) = if fs.nameMax < n.bytes.length then .error .nameTooLong
      else match fs.kind (n :: place) with
        | none => .error .noEntry
        | some (.leaf (.link target)) => .ok (.link target)
        | some (.leaf .broken) => .error .io
        | some _ => .ok (.place (n :: place)) := by
  simp only [step, here]

theorem step_place {place next : Loc} {part : Part} (ok : fs.step place part = .ok (.place next)) :
    (∃ n, part = .name n ∧ next = n :: place ∧ fs.kind place = some .dir ∧
      (fs.Directory next ∨ fs.Takes next)) ∨
    fs.Directory next ∧ (next = place ∨ next = place.tail) := by
  rcases step_dir ok with here | ⟨locked, -, same⟩
  · cases part with
    | dot =>
      simp only [step, here, Except.ok.injEq, Turn.place.injEq] at ok
      exact .inr (ok ▸ ⟨.inl here, .inl rfl⟩)
    | trailing =>
      simp only [step, here, Except.ok.injEq, Turn.place.injEq] at ok
      exact .inr (ok ▸ ⟨.inl here, .inl rfl⟩)
    | dotdot =>
      simp only [step, here, Except.ok.injEq, Turn.place.injEq] at ok
      exact .inr (ok ▸ ⟨.inl (kind_tail here), .inr rfl⟩)
    | name n =>
      rw [step_name here] at ok
      split_ifs at ok with long
      refine .inl ⟨n, rfl, ?_⟩
      cases found : fs.kind (n :: place) with
      | none => simp [found] at ok
      | some what =>
        rw [found] at ok
        cases what with
        | dir =>
          cases ok
          exact ⟨rfl, here, .inl (.inl found)⟩
        | leaf what =>
          cases what with
          | link target => cases ok
          | broken => cases ok
          | locked =>
            cases ok
            exact ⟨rfl, here, .inl (.inr found)⟩
          | file content readable =>
            cases ok
            exact ⟨rfl, here, .inr (.inr ⟨content, readable, found⟩)⟩
          | special =>
            cases ok
            exact ⟨rfl, here, .inr (.inl found)⟩
  · cases same
    exact .inr ⟨.inr locked, .inl rfl⟩

theorem step_trailing {place : Loc} {turn : Turn} (ok : fs.step place .trailing = .ok turn) :
    turn = .place place := by
  rcases step_dir ok with here | ⟨-, -, same⟩
  · simp only [step, here, Except.ok.injEq] at ok
    exact ok.symm
  · exact same

theorem step_link {place : Loc} {part : Part} {target : Path}
    (met : fs.step place part = .ok (.link target)) : ∃ n, part = .name n ∧
      fs.kind place = some .dir ∧ fs.kind (n :: place) = some (.leaf (.link target)) := by
  rcases step_dir met with here | ⟨-, -, impossible⟩
  · cases part with
    | dot => simp [step, here] at met
    | trailing => simp [step, here] at met
    | dotdot => simp [step, here] at met
    | name n =>
      rw [step_name here] at met
      split_ifs at met with long
      refine ⟨n, rfl, here, ?_⟩
      cases found : fs.kind (n :: place) with
      | none => simp [found] at met
      | some what =>
        rw [found] at met
        cases what with
        | dir => cases met
        | leaf what => cases what <;> cases met <;> rfl
  · cases impossible

theorem step_missing {place : Loc} {n : Name} (failed : fs.step place (.name n) = .error .noEntry) :
    fs.kind place = some .dir ∧ fs.kind (n :: place) = none ∧ ¬ fs.nameMax < n.bytes.length := by
  by_cases here : fs.kind place = some .dir
  · rw [step_name here] at failed
    by_cases long : fs.nameMax < n.bytes.length
    · simp [long] at failed
    rw [if_neg long] at failed
    refine ⟨here, ?_, long⟩
    cases found : fs.kind (n :: place) with
    | none => rfl
    | some what =>
      rw [found] at failed
      cases what with
      | dir => cases failed
      | leaf what => cases what <;> cases failed
  · unfold step at failed
    split at failed <;> first | contradiction | cases failed

theorem existingPrefix_spec (links : Nat) (place : Loc) (parts : List Part) :
    ∃ done, parts = done ++ (fs.existingPrefix links place parts).rest ∧
      fs.walk links place done = .ok ((fs.existingPrefix links place parts).place,
        (fs.existingPrefix links place parts).links) ∧
      ∀ part rest, (fs.existingPrefix links place parts).rest = part :: rest →
        ∃ e, fs.walk (fs.existingPrefix links place parts).links
          (fs.existingPrefix links place parts).place [part] = .error e := by
  induction parts generalizing links place with
  | nil => exact ⟨[], rfl, walk_nil _ _, by simp [existingPrefix]⟩
  | cons part rest ih =>
    simp only [existingPrefix]
    cases result : fs.walk links place [part] with
    | ok reached =>
      obtain ⟨next, left⟩ := reached
      obtain ⟨done, split, walked, stuck⟩ := ih left next
      refine ⟨part :: done, ?_, ?_, stuck⟩
      · rw [List.cons_append, ← split]
      · exact (walk_append_ok done result).trans walked
    | error e =>
      refine ⟨[], rfl, walk_nil _ _, ?_⟩
      intro other more same
      cases same
      exact ⟨e, result⟩

theorem existingPrefix_append {links left : Nat} {place middle : Loc} {first : List Part}
    (second : List Part) (walked : fs.walk links place first = .ok (middle, left)) :
    fs.existingPrefix links place (first ++ second) = fs.existingPrefix left middle second := by
  induction first generalizing links place with
  | nil =>
    rw [walk_nil] at walked
    cases walked
    rfl
  | cons part rest ih =>
    have split : fs.walk links place ([part] ++ rest) = _ := walk_append links place [part] rest
    rw [List.singleton_append, walked] at split
    simp only [List.cons_append, existingPrefix]
    cases result : fs.walk links place [part] with
    | ok reached =>
      rw [result] at split
      exact ih split.symm
    | error e => simp [result] at split

theorem existingPrefix_whole {links left : Nat} {place loc : Loc} {parts : List Part}
    (walked : fs.walk links place parts = .ok (loc, left)) :
    fs.existingPrefix links place parts = ⟨left, loc, []⟩ := by
  have whole := existingPrefix_append [] walked
  rwa [List.append_nil] at whole

theorem existing_spec (fs : FileSystem) (p : Path) :
    p.parts = fs.existing p ++ (fs.existingPrefix linkMax (fs.start p) p.parts).rest ∧
      ∃ reached, fs.walk linkMax (fs.start p) (fs.existing p) = .ok reached := by
  obtain ⟨done, split, walked, -⟩ := @existingPrefix_spec fs linkMax (fs.start p) p.parts
  have same : fs.existing p = done := by
    have length := congrArg List.length split
    rw [List.length_append] at length
    unfold existing
    rw [length, Nat.add_sub_cancel]
    exact (congrArg (List.take done.length) split).trans (List.take_left' rfl)
  rw [same]
  exact ⟨split, _, walked⟩

/-- Components at the start of a path that lead somewhere are among those that exist. -/
theorem prefix_existing {p : Path} {initial : List Part} {reached : Loc × Nat} (among : initial <+: p.parts)
    (walked : fs.walk linkMax (fs.start p) initial = .ok reached) : initial <+: fs.existing p := by
  obtain ⟨more, split⟩ := among
  obtain ⟨done, whole, -⟩ := @existingPrefix_spec fs reached.2 reached.1 more
  have onward := existingPrefix_append more walked
  have parts := (existing_spec fs p).1
  rw [← split, onward] at parts
  have length := congrArg List.length parts
  have lengths := congrArg List.length whole
  simp only [List.length_append] at length lengths
  have whole' : fs.existing p <+: initial ++ more := parts ▸ List.prefix_append _ _
  exact List.prefix_of_prefix_length_le (List.prefix_append _ _) whole' (by omega)

theorem existing_whole {p : Path} {reached : Loc × Nat}
    (walked : fs.walk linkMax (fs.start p) p.parts = .ok reached) : fs.existing p = p.parts := by
  have all := prefix_existing (List.prefix_refl _) walked
  have length := congrArg List.length (existing_spec fs p).1
  rw [List.length_append] at length
  exact (all.eq_of_length_le (by omega)).symm

theorem passed_onward {links : Nat} {place next : Loc} {part : Part} {rest : List Part}
    (went : fs.step place part = .ok (.place next)) :
    fs.passed links place (part :: rest) = namedBy place part ++ fs.passed links next rest := by
  cases links <;> simp only [passed, passedWith, went]

theorem passed_linked {links : Nat} {place : Loc} {part : Part} {rest : List Part} {target : Path}
    (met : fs.step place part = .ok (.link target)) : fs.passed (links + 1) place (part :: rest) =
      namedBy place part ++ fs.passed links (origin place target) (target.parts ++ rest) := by
  simp only [passed, passedWith, met]

theorem passed_append {links left : Nat} {place middle : Loc} {first : List Part} (second : List Part)
    (walked : fs.walk links place first = .ok (middle, left)) :
    fs.passed links place (first ++ second) = fs.passed links place first ++ fs.passed left middle second := by
  induction links, place, first using walk_induction fs with
  | done links place =>
    rw [walk_nil] at walked
    cases walked
    cases left <;> rfl
  | failed links place part rest e result =>
    rw [walk_failed result] at walked
    cases walked
  | onward links place part rest next result ih =>
    rw [walk_onward result] at walked
    rw [List.cons_append, passed_onward result, passed_onward result, ih walked, List.append_assoc]
  | barred place part rest target result =>
    rw [walk_barred result] at walked
    cases walked
  | linked links place part rest target result ih =>
    rw [walk_linked result] at walked
    split_ifs at walked
    rw [List.cons_append, passed_linked result, passed_linked result, ← List.append_assoc, ih walked,
      List.append_assoc]

theorem spells_append {place : Loc} {initial more : List Part} {reached : Loc × Nat}
    (walked : fs.walk linkMax place initial = .ok reached)
    (all : fs.spells place (initial ++ more) = true) : fs.spells place initial = true := by
  unfold spells at all ⊢
  rw [passed_append more walked, ← List.cons_append, List.all_append, Bool.and_eq_true] at all
  exact all.1

theorem walk_slash {links : Nat} {place : Loc} {reached : Loc × Nat}
    (walked : fs.walk links place [.trailing] = .ok reached) : fs.step place .trailing = .ok (.place place) := by
  cases last : fs.step place .trailing with
  | error e => simp [walk_failed last] at walked
  | ok turn => rw [step_trailing last]

/-- A slash at the end asks for no entry of its own. -/
theorem spells_trailing {place : Loc} {initial : List Part} {reached : Loc × Nat}
    (walked : fs.walk linkMax place (initial ++ [.trailing]) = .ok reached) :
    fs.spells place (initial ++ [.trailing]) = fs.spells place initial := by
  rw [walk_append] at walked
  cases first : fs.walk linkMax place initial with
  | error e => simp [first] at walked
  | ok middle =>
    rw [first] at walked
    have nothing : fs.passed middle.2 middle.1 [.trailing] = [] := by
      rw [passed_onward (walk_slash walked)]
      cases middle.2 <;> rfl
    unfold spells
    rw [passed_append _ first, nothing, List.append_nil]

theorem weaklyCanonical_ok {p form : Path} (ok : fs.weaklyCanonical p = .ok form) :
    fs.canonicalForm p = .ok form := by
  unfold weaklyCanonical at ok
  cases found : fs.canonicalForm p with
  | error e => simp [found] at ok
  | ok other =>
    rw [found] at ok
    dsimp only at ok
    split_ifs at ok
    exact ok

theorem ask_ok {p : Path} {parts : List Part} (asked : fs.ask p = .ok parts) :
    p.asked ≠ [] ∧ p.asked.length < fs.pathMax ∧ parts = p.parts := by
  unfold ask at asked
  split_ifs at asked with empty long
  exact ⟨empty, Nat.lt_of_not_le long, (Except.ok.inj asked).symm⟩

theorem resolve_ok {p : Path} {loc : Loc} (found : fs.resolve p = .ok loc) :
    fs.ask p = .ok p.parts ∧ ∃ left, fs.walk linkMax (fs.start p) p.parts = .ok (loc, left) := by
  unfold resolve at found
  cases asked : fs.ask p with
  | error e => simp [asked] at found
  | ok parts =>
    obtain rfl := (ask_ok asked).2.2
    rw [asked] at found
    refine ⟨rfl, ?_⟩
    cases walked : fs.walk linkMax (fs.start p) p.parts with
    | error e => simp [walked, Except.map] at found
    | ok reached =>
      simp only [walked, Except.map, Except.ok.injEq] at found
      exact ⟨reached.2, by rw [← found]⟩

/-- Entries are only added, and files only rewritten. -/
structure Grows (fs fs' : FileSystem) : Prop where
  alike : ∀ loc found, fs.kind loc = some found → ∃ found', fs'.kind loc = some found' ∧ found.Alike found'
  cwd : fs'.cwd = fs.cwd
  nameMax : fs'.nameMax = fs.nameMax
  pathMax : fs'.pathMax = fs.pathMax

theorem Grows.refl (fs : FileSystem) : Grows fs fs :=
  ⟨fun _ found there => ⟨found, there, .inl rfl⟩, rfl, rfl, rfl⟩

theorem Grows.trans {fs fs' fs'' : FileSystem} (one : Grows fs fs') (two : Grows fs' fs'') :
    Grows fs fs'' := by
  refine ⟨fun loc found there => ?_, two.cwd.trans one.cwd, two.nameMax.trans one.nameMax,
    two.pathMax.trans one.pathMax⟩
  obtain ⟨found', there', near⟩ := one.alike loc found there
  obtain ⟨found'', there'', far⟩ := two.alike loc found' there'
  exact ⟨found'', there'', near.trans far⟩

theorem Grows.same (grows : Grows fs fs') {loc : Loc} {what : Kind} (there : fs.kind loc = some what)
    (other : ∀ content readable, what ≠ .leaf (.file content readable)) : fs'.kind loc = some what := by
  obtain ⟨found, there', alike⟩ := grows.alike loc _ there
  rcases alike with rfl | ⟨content, readable, _, _, file, _⟩
  · exact there'
  · exact absurd file (other content readable)

theorem Grows.dir (grows : Grows fs fs') {loc : Loc} (there : fs.kind loc = some .dir) :
    fs'.kind loc = some .dir := grows.same there (by simp)

theorem Grows.takes (grows : Grows fs fs') {loc : Loc} (takes : fs.Takes loc) : fs'.Takes loc := by
  rcases takes with device | ⟨content, readable, file⟩
  · exact .inl (grows.same device (by simp))
  · obtain ⟨_, there, rfl | ⟨_, _, content', readable', -, rfl⟩⟩ := grows.alike _ _ file
    · exact .inr ⟨content, readable, there⟩
    · exact .inr ⟨content', readable', there⟩

theorem Grows.step (grows : Grows fs fs') {place : Loc} {part : Part} {turn : Turn}
    (ok : fs.step place part = .ok turn) : fs'.step place part = .ok turn := by
  rcases step_dir ok with here | ⟨locked, rfl, rfl⟩
  · have here' := grows.dir here
    cases part with
    | dot => simpa only [FileSystem.step, here, here'] using ok
    | trailing => simpa only [FileSystem.step, here, here'] using ok
    | dotdot => simpa only [FileSystem.step, here, here'] using ok
    | name n =>
      rw [step_name here] at ok
      rw [step_name here', grows.nameMax]
      split_ifs at ok ⊢ with long
      cases found : fs.kind (n :: place) with
      | none => simp [found] at ok
      | some what =>
        obtain ⟨what', there', alike⟩ := grows.alike _ _ found
        rw [found] at ok
        rw [there']
        rcases alike with rfl | ⟨_, _, _, _, rfl, rfl⟩
        · exact ok
        · exact ok
  · simp only [FileSystem.step, grows.same locked (by simp)]

theorem Grows.walk (grows : Grows fs fs') {links : Nat} {place : Loc} {parts : List Part}
    {reached : Loc × Nat} (ok : fs.walk links place parts = .ok reached) :
    fs'.walk links place parts = .ok reached := by
  induction links, place, parts using walk_induction fs with
  | done links place =>
    rw [walk_nil] at ok ⊢
    exact ok
  | failed links place part rest e result =>
    rw [walk_failed result] at ok
    cases ok
  | onward links place part rest next result ih =>
    rw [walk_onward result] at ok
    rw [walk_onward (grows.step result), ih ok]
  | barred place part rest target result =>
    rw [walk_barred result] at ok
    cases ok
  | linked links place part rest target result ih =>
    rw [walk_linked result] at ok
    rw [walk_linked (grows.step result)]
    split_ifs at ok ⊢
    exact ih ok

theorem Grows.start (grows : Grows fs fs') (p : Path) : fs'.start p = fs.start p := by
  simp only [FileSystem.start, grows.cwd]

theorem Grows.ask (grows : Grows fs fs') (p : Path) : fs'.ask p = fs.ask p := by
  simp only [FileSystem.ask, grows.pathMax]

theorem Grows.resolve (grows : Grows fs fs') {loc : Loc} {p : Path} (ok : fs.resolve p = .ok loc) :
    fs'.resolve p = .ok loc := by
  obtain ⟨asked, left, walked⟩ := resolve_ok ok
  unfold FileSystem.resolve
  rw [grows.ask, asked]
  simp only [grows.start, grows.walk walked, Except.map]

theorem grows_mkdir {n : Name} {up : Loc} (parent : fs.kind up = some .dir)
    (absent : fs.kind (n :: up) = none) : Grows fs (fs.mkdir (n :: up)) := by
  refine ⟨fun loc found there => ⟨found, ?_, .inl rfl⟩, rfl, rfl, rfl⟩
  rw [kind_mkdir parent absent, if_neg, there]
  rintro rfl
  simp [absent] at there

theorem grows_writeFile {n : Name} {up : Loc} (content : Bytes) (parent : fs.kind up = some .dir)
    (free : fs.kind (n :: up) = none ∨
      ∃ old readable, fs.kind (n :: up) = some (.leaf (.file old readable))) :
    Grows fs (fs.writeFile (n :: up) content) := by
  have vacant : fs.Vacant (n :: up) := by
    unfold Vacant
    rcases free with none | ⟨old, readable, some⟩ <;> simp [*]
  obtain ⟨readable, written⟩ := @kind_writeFile fs n up content parent vacant
  refine ⟨fun loc found there => ?_, rfl, rfl, rfl⟩
  by_cases here : loc = n :: up
  · subst here
    refine ⟨_, (written _).trans (if_pos rfl), .inr ?_⟩
    rcases free with none | ⟨old, was, some⟩
    · simp [none] at there
    · rw [some] at there
      cases there
      exact ⟨old, was, content, readable, rfl, rfl⟩
  · exact ⟨found, ((written loc).trans (if_neg here)).trans there, .inl rfl⟩

/-! ### Opening -/

theorem openPlace_ok {loc target : Loc} (opened : fs.openPlace loc = .ok target) :
    target = loc ∧ ¬ fs.Directory loc := by
  unfold openPlace at opened
  split at opened
  · cases opened
  · cases opened
  · rename_i notDir notLocked
    exact ⟨(Except.ok.inj opened).symm, by rintro (here | here) <;> contradiction⟩

theorem open_onward {links : Nat} {place next : Loc} {part : Part} {rest : List Part}
    (went : fs.step place part = .ok (.place next)) : fs.openFrom links place (part :: rest) =
      if rest = [] then fs.openPlace next else fs.openFrom links next rest := by
  cases links <;> simp only [openFrom, openWith, went]

theorem open_failed {links : Nat} {place : Loc} {part : Part} {rest : List Part} {e : Errno}
    (failed : fs.step place part = .error e) :
    fs.openFrom links place (part :: rest) = openMissing place e part rest := by
  cases links <;> simp only [openFrom, openWith, failed]

theorem open_barred {place : Loc} {part : Part} {rest : List Part} {target : Path}
    (met : fs.step place part = .ok (.link target)) :
    fs.openFrom 0 place (part :: rest) = .error .tooManyLinks := by
  simp only [openFrom, openWith, met]

theorem open_linked {links : Nat} {place : Loc} {part : Part} {rest : List Part} {target : Path}
    (met : fs.step place part = .ok (.link target)) :
    fs.openFrom (links + 1) place (part :: rest) = if target.asked = [] then .error .noEntry
      else fs.openFrom links (origin place target) (target.parts ++ rest) := by
  simp only [openFrom, openWith, met]

@[simp] theorem open_nil (links : Nat) (place : Loc) : fs.openFrom links place [] = .error .isDirectory := by
  cases links <;> rfl

theorem open_append (links : Nat) (place : Loc) (first : List Part) {second : List Part}
    (some : second ≠ []) : fs.openFrom links place (first ++ second) =
      match fs.walk links place first with
      | .ok (middle, left) => fs.openFrom left middle second
      | .error e => .error e := by
  induction links, place, first using walk_induction fs with
  | done links place => simp
  | failed links place part rest e result =>
    have more : rest ++ second ≠ [] := by simp [some]
    rw [List.cons_append, walk_failed result, open_failed result]
    unfold openMissing
    split
    · exact absurd ‹_› more
    · rfl
  | onward links place part rest next result ih =>
    have more : rest ++ second ≠ [] := by simp [some]
    rw [List.cons_append, walk_onward result, open_onward result, if_neg more, ih]
  | barred place part rest target result => rw [List.cons_append, walk_barred result, open_barred result]
  | linked links place part rest target result ih =>
    rw [List.cons_append, walk_linked result, open_linked result]
    split_ifs
    · rfl
    · rw [← ih, List.append_assoc]

theorem open_missing {links : Nat} {place target : Loc} {part : Part} {rest : List Part} {e : Errno}
    (failed : fs.step place part = .error e) (opened : fs.openFrom links place (part :: rest) = .ok target) :
    ∃ n, part = .name n ∧ rest = [] ∧ target = n :: place ∧ fs.kind place = some .dir ∧
      fs.kind target = none ∧ ¬ fs.nameMax < n.bytes.length := by
  rw [open_failed failed] at opened
  unfold openMissing at opened
  split at opened
  · rename_i n
    cases opened
    obtain ⟨here, absent, short⟩ := step_missing failed
    exact ⟨n, rfl, rfl, rfl, here, absent, short⟩
  · cases opened

theorem open_place {links : Nat} {place target : Loc} {parts : List Part}
    (opened : fs.openFrom links place parts = .ok target) :
    ∃ last up, target = last :: up ∧ fs.kind up = some .dir ∧
      (fs.kind target = none ∨ fs.Takes target) := by
  induction links, place, parts using walk_induction fs with
  | done links place => simp at opened
  | failed links place part rest e result =>
    obtain ⟨n, -, -, rfl, here, absent, -⟩ := open_missing result opened
    exact ⟨n, place, rfl, here, .inl absent⟩
  | onward links place part rest next result ih =>
    rw [open_onward result] at opened
    split_ifs at opened with more
    · obtain ⟨rfl, plain⟩ := openPlace_ok opened
      obtain ⟨n, -, rfl, here, there⟩ | ⟨there, -⟩ := step_place result
      · exact ⟨n, place, rfl, here, .inr (there.resolve_left plain)⟩
      · exact absurd there plain
    · exact ih opened
  | barred place part rest target result => simp [open_barred result] at opened
  | linked links place part rest target result ih =>
    rw [open_linked result] at opened
    split_ifs at opened
    exact ih opened

/-- After a write to a place that was opened it holds the content, and all else is as it was. -/
theorem kind_opened {links : Nat} {place target : Loc} {parts : List Part}
    (opened : fs.openFrom links place parts = .ok target) (content : Bytes) :
    ∃ readable, ∀ loc, (fs.writeFile target content).kind loc =
      if loc = target then some (.leaf (.file content readable)) else fs.kind loc := by
  obtain ⟨last, up, rfl, parent, free⟩ := open_place opened
  have vacant : fs.Vacant (last :: up) := by
    rcases free with none | takes
    · simp [Vacant, none]
    · exact fun directory => takes.not_directory (.inl directory)
  exact kind_writeFile parent vacant

theorem grows_opened {links : Nat} {place target : Loc} {parts : List Part}
    (opened : fs.openFrom links place parts = .ok target) (plain : fs.kind target ≠ some (.leaf .special))
    (content : Bytes) : Grows fs (fs.writeFile target content) := by
  obtain ⟨last, up, rfl, parent, free⟩ := open_place opened
  exact grows_writeFile content parent (free.imp id fun takes => takes.resolve_left plain)

/-- Where a path was opened, it is opened again as long as there is no directory or link now. -/
theorem Grows.openFrom (grows : Grows fs fs') {links : Nat} {place target : Loc} {parts : List Part}
    (takes : fs'.Takes target) (opened : fs.openFrom links place parts = .ok target) :
    fs'.openFrom links place parts = .ok target := by
  induction links, place, parts using walk_induction fs with
  | done links place => simp at opened
  | failed links place part rest e result =>
    obtain ⟨n, rfl, rfl, rfl, here, absent, short⟩ := open_missing result opened
    have went : fs'.step place (.name n) = .ok (.place (n :: place)) := by
      rw [step_name (grows.dir here), grows.nameMax, if_neg short]
      rcases takes with device | ⟨content, readable, file⟩
      · rw [device]
      · rw [file]
    have plain : fs'.openPlace (n :: place) = .ok (n :: place) := by
      unfold openPlace
      rcases takes with device | ⟨content, readable, file⟩
      · rw [device]
      · rw [file]
    rw [open_onward went, if_pos rfl, plain]
  | onward links place part rest next result ih =>
    rw [open_onward result] at opened
    rw [open_onward (grows.step result)]
    split_ifs at opened ⊢ with more
    · obtain ⟨rfl, plain⟩ := openPlace_ok opened
      unfold openPlace
      rcases takes with device | ⟨content, readable, file⟩
      · rw [device]
      · rw [file]
    · exact ih opened
  | barred place part rest target result => simp [open_barred result] at opened
  | linked links place part rest target result ih =>
    rw [open_linked result] at opened
    rw [open_linked (grows.step result)]
    split_ifs at opened ⊢
    exact ih opened

theorem open_resolved {links left : Nat} {place target loc : Loc} {parts : List Part}
    (walked : fs.walk links place parts = .ok (loc, left))
    (opened : fs.openFrom links place parts = .ok target) : target = loc := by
  induction links, place, parts using walk_induction fs with
  | done links place => simp at opened
  | failed links place part rest e result => simp [walk_failed result] at walked
  | onward links place part rest next result ih =>
    rw [open_onward result] at opened
    rw [walk_onward result] at walked
    split_ifs at opened with more
    · rw [more, walk_nil] at walked
      cases walked
      exact (openPlace_ok opened).1
    · exact ih walked opened
  | barred place part rest target result => simp [open_barred result] at opened
  | linked links place part rest target result ih =>
    rw [open_linked result] at opened
    rw [walk_linked result] at walked
    split_ifs at opened walked
    exact ih walked opened

theorem openForWriting_ok {p : Path} {target : Loc} (opened : fs.openForWriting p = .ok target) :
    fs.ask p = .ok p.parts ∧ fs.openFrom linkMax (fs.start p) p.parts = .ok target := by
  unfold openForWriting at opened
  cases asked : fs.ask p with
  | error e => simp [asked] at opened
  | ok parts =>
    obtain rfl := (ask_ok asked).2.2
    rw [asked] at opened
    exact ⟨rfl, opened⟩

theorem Grows.openForWriting (grows : Grows fs fs') {p : Path} {target : Loc} (takes : fs'.Takes target)
    (opened : fs.openForWriting p = .ok target) : fs'.openForWriting p = .ok target := by
  obtain ⟨asked, went⟩ := openForWriting_ok opened
  unfold FileSystem.openForWriting
  rw [grows.ask, asked]
  simp only [grows.start, grows.openFrom takes went]

/-! ### Creating -/

/-- What `makeBelow` does: it only adds directories, those it lists, and where it ends the same
components lead in the new tree. -/
structure Made.Sound (made : Made) (fs : FileSystem) (links : Nat) (place : Loc) (parts : List Part) :
    Prop where
  grows : Grows fs made.fs
  frame : ∀ loc, loc ∉ made.created → made.fs.kind loc = fs.kind loc
  directories : ∀ loc ∈ made.created, made.fs.kind loc = some .dir
  walks : ∀ up left, made.ended = .ok (up, left) →
    made.fs.walk links place parts = .ok (up, left) ∧ made.fs.Directory up

theorem Made.Sound.stopped (fs : FileSystem) (links : Nat) (place : Loc) (parts : List Part) (e : Errno) :
    Made.Sound ⟨fs, [], .error e⟩ fs links place parts :=
  ⟨Grows.refl fs, fun _ _ => rfl, by simp, fun _ _ impossible => nomatch impossible⟩

/-- The first component leads to `next`, where the rest continues in the same tree. -/
theorem Made.Sound.onward {links left : Nat} {place next : Loc} {part : Part} {rest : List Part}
    {made : Made} (first : fs.walk links place [part] = .ok (next, left))
    (sound : made.Sound fs left next rest) : made.Sound fs links place (part :: rest) := by
  refine ⟨sound.grows, sound.frame, sound.directories, fun up left' ended => ?_⟩
  obtain ⟨walked, directory⟩ := sound.walks up left' ended
  refine ⟨?_, directory⟩
  rw [← List.singleton_append, walk_append_ok rest (sound.grows.walk first)]
  exact walked

theorem walk_place {links : Nat} {place next : Loc} {part : Part}
    (went : fs.step place part = .ok (.place next)) : fs.walk links place [part] = .ok (next, links) := by
  rw [walk_onward went, walk_nil]

theorem makeBelow_sound (refusal : Refusal) (links : Nat) {place : Loc} (here : fs.kind place = some .dir)
    (parts : List Part) : (fs.makeBelow refusal links place parts).Sound fs links place parts := by
  induction parts generalizing fs refusal links place with
  | nil =>
    refine ⟨Grows.refl fs, fun _ _ => rfl, by simp [makeBelow], fun up left ended => ?_⟩
    cases ended
    exact ⟨walk_nil _ _, .inl here⟩
  | cons part rest ih =>
    cases part with
    | dot => exact .onward (walk_place (by simp [step, here])) (ih _ _ here)
    | trailing => exact .onward (walk_place (by simp [step, here])) (ih _ _ here)
    | dotdot => exact .onward (walk_place (by simp [step, here])) (ih _ _ (kind_tail here))
    | name n =>
      simp only [makeBelow]
      by_cases long : fs.nameMax < n.bytes.length
      · rw [if_pos long]
        exact .stopped _ _ _ _ _
      · rw [if_neg long]
        cases found : fs.kind (n :: place) with
        | none =>
          simp only []
          cases refusal.now with
          | some e => exact .stopped _ _ _ _ _
          | none =>
            have there : (fs.mkdir (n :: place)).kind (n :: place) = some .dir := by
              rw [kind_mkdir here found, if_pos rfl]
            have made := ih refusal.later links there
            have first := grows_mkdir here found
            have arrived : (fs.mkdir (n :: place)).walk links place [.name n] =
                .ok (n :: place, links) := by
              apply walk_place
              rw [step_name (first.dir here), first.nameMax, if_neg long, there]
            refine ⟨first.trans made.grows, ?_, ?_, (Made.Sound.onward arrived made).walks⟩
            · intro loc outside
              simp only [List.mem_cons, not_or] at outside
              exact (made.frame loc outside.2).trans
                ((kind_mkdir here found loc).trans (if_neg outside.1))
            · exact List.forall_mem_cons.2 ⟨made.grows.dir there, made.directories⟩
        | some what =>
          simp only []
          cases walked : fs.walk links place [.name n] with
          | error e => exact .stopped _ _ _ _ _
          | ok reached =>
            obtain ⟨next, left⟩ := reached
            simp only []
            split
            · rename_i directory
              exact .onward walked (ih _ _ directory)
            · rename_i locked
              by_cases last : rest = []
              · subst last
                refine ⟨Grows.refl fs, fun _ _ => rfl, by simp, fun up left' ended => ?_⟩
                cases ended
                exact ⟨walked, .inr locked⟩
              · rw [if_neg last]
                exact .stopped _ _ _ _ _
            · exact .stopped _ _ _ _ _

theorem makeBelow_taken (refusal : Refusal) {links left : Nat} {place next : Loc} {n : Name}
    (rest : List Part) (short : ¬ fs.nameMax < n.bytes.length) (taken : fs.kind (n :: place) ≠ none)
    (walked : fs.walk links place [.name n] = .ok (next, left)) :
    (fs.kind next = some .dir ∧
      fs.makeBelow refusal links place (.name n :: rest) = fs.makeBelow refusal left next rest) ∨
    fs.kind next ≠ some .dir ∧ ∃ ended,
      fs.makeBelow refusal links place (.name n :: rest) = ⟨fs, [], ended⟩ ∧
      ∀ up left', ended = .ok (up, left') → up = next := by
  simp only [makeBelow, if_neg short]
  cases found : fs.kind (n :: place) with
  | none => exact absurd found taken
  | some what =>
    simp only [walked]
    split
    · rename_i directory
      exact .inl ⟨directory, rfl⟩
    · rename_i locked
      refine .inr ⟨by simp [locked], _, rfl, fun up left' ended => ?_⟩
      split_ifs at ended
      cases ended
      rfl
    · rename_i other _
      exact .inr ⟨other, _, rfl, fun up left' impossible => nomatch impossible⟩

/-- What becomes of making the directories of a path: it exists, or it cannot be asked for, or the
missing ones are made below the last that exists. -/
theorem createDirectories_cases (refusal : Refusal) (p : Path) :
    (∃ ended, fs.createDirectories refusal p = ⟨fs, [], ended⟩ ∧
      ∀ up left, ended = .ok (up, left) → fs.Directory up ∧
        fs.walk linkMax (fs.start p) p.parts = .ok (up, left)) ∨
    ∃ links place done part rest, p.parts = done ++ part :: rest ∧ fs.kind place = some .dir ∧
      fs.walk linkMax (fs.start p) done = .ok (place, links) ∧
      (∃ e, fs.walk links place [part] = .error e) ∧
      fs.createDirectories refusal p = fs.makeBelow refusal links place (part :: rest) := by
  unfold createDirectories
  cases asked : fs.ask p with
  | error e => exact .inl ⟨_, rfl, fun up left impossible => nomatch impossible⟩
  | ok parts =>
    obtain rfl := (ask_ok asked).2.2
    obtain ⟨done, split, walked, stuck⟩ := @existingPrefix_spec fs linkMax (fs.start p) p.parts
    simp only []
    cases reached : fs.existingPrefix linkMax (fs.start p) p.parts with
    | mk links place rest =>
    rw [reached] at split walked stuck
    simp only [] at split walked stuck ⊢
    cases rest with
    | nil =>
      refine .inl ⟨_, rfl, fun up left ended => ?_⟩
      rw [List.append_nil] at split
      split at ended
      · rename_i directory
        cases ended
        exact ⟨.inl directory, split ▸ walked⟩
      · rename_i locked
        cases ended
        exact ⟨.inr locked, split ▸ walked⟩
      · cases ended
    | cons part rest =>
      obtain ⟨e, failed⟩ := stuck part rest rfl
      simp only [failed]
      split_ifs with known many here
      · exact .inl ⟨_, rfl, fun up left impossible => nomatch impossible⟩
      · exact .inr ⟨links, place, done, part, rest, split, here, walked, ⟨e, failed⟩, rfl⟩
      · exact .inl ⟨_, rfl, fun up left impossible => nomatch impossible⟩
      · exact .inl ⟨_, rfl, fun up left impossible => nomatch impossible⟩

theorem createDirectories_sound {refusal : Refusal} {p : Path} {made : Made}
    (making : fs.createDirectories refusal p = made) :
    Grows fs made.fs ∧ (∀ loc, loc ∉ made.created → made.fs.kind loc = fs.kind loc) ∧
      (∀ loc ∈ made.created, made.fs.kind loc = some .dir) ∧
      ∀ up left, made.ended = .ok (up, left) → made.fs.Directory up ∧
        made.fs.walk linkMax (fs.start p) p.parts = .ok (up, left) := by
  subst making
  rcases createDirectories_cases refusal p with
    ⟨ended, same, leads⟩ | ⟨links, place, done, part, rest, split, here, walked, -, same⟩
  · rw [same]
    exact ⟨Grows.refl fs, fun _ _ => rfl, by simp, leads⟩
  · have sound := makeBelow_sound refusal links here (part :: rest)
    rw [same]
    refine ⟨sound.grows, sound.frame, sound.directories, fun up left ended => ?_⟩
    obtain ⟨onward, directory⟩ := sound.walks up left ended
    refine ⟨directory, ?_⟩
    rw [split, walk_append_ok _ (sound.grows.walk walked)]
    exact onward

theorem createDirectories_kind {refusal : Refusal} {p : Path} {made : Made}
    (making : fs.createDirectories refusal p = made) {loc : Loc} (takes : made.fs.Takes loc) :
    made.fs.kind loc = fs.kind loc := by
  obtain ⟨-, frame, directories, -⟩ := createDirectories_sound making
  exact frame loc fun created => takes.not_directory (.inl (directories loc created))

/-- The root, a path without null bytes, leads to an existing directory, which is the canonical root. -/
structure Rooted (fs : FileSystem) (root : Path) (base : Loc) : Prop where
  plain : null ∉ root.text
  resolves : fs.resolve root = .ok base
  directory : fs.kind base = some .dir

variable {root : Path} {base : Loc}

theorem Rooted.grows (rooted : Rooted fs root base) (grows : Grows fs fs') : Rooted fs' root base :=
  ⟨rooted.plain, grows.resolve rooted.resolves, grows.dir rooted.directory⟩

theorem Rooted.nonempty (rooted : Rooted fs root base) : root.text ≠ [] := by
  intro empty
  have asked := (ask_ok (resolve_ok rooted.resolves).1).1
  simp [Path.asked, empty] at asked

theorem Rooted.walk (rooted : Rooted fs root base) :
    ∃ left, fs.walk linkMax (fs.start root) ((named root.text).map Part.ofPiece) = .ok (base, left) := by
  obtain ⟨-, left, walked⟩ := resolve_ok rooted.resolves
  rcases parts_plain rooted.plain with plain | closed
  · exact ⟨left, plain ▸ walked⟩
  · rw [closed, walk_append] at walked
    cases names : fs.walk linkMax (fs.start root) ((named root.text).map Part.ofPiece) with
    | error e => simp [names] at walked
    | ok reached =>
      obtain ⟨place, left'⟩ := reached
      rw [names] at walked
      change fs.walk left' place [.trailing] = .ok (base, left) at walked
      -- the slash at the end leads nowhere else
      rw [walk_place (walk_slash walked)] at walked
      cases walked
      exact ⟨_, rfl⟩

theorem Rooted.canonicalForm_root (rooted : Rooted fs root base) :
    fs.canonicalForm root = .ok base.toPath := by
  simp only [canonicalForm, rooted.resolves]

end FileSystem

end CppCoder.Support.Disk
