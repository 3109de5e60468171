import CppCoder.CodebaseScanner
import CppCoder.Samples

/-! Which files a scan may show. The target area is joined to the root as it is: it may replace the
root, climb out of it, or name a file, and the walk alone looks for excluded components. -/

namespace CppCoder.ScanConfinement
open Support Utf8 Paths Support.Tree Disk FileSystem Walk CppCoder.Types CodebaseScanner

/-- Under the root, with nothing excluded on the way down from it. -/
def Confined (base loc : Loc) : Prop :=
  base <:+ loc ∧ ∀ n ∈ loc.take (loc.length - base.length), n.bytes ∉ excludedNames

instance (base loc : Loc) : Decidable (Confined base loc) := inferInstanceAs (Decidable (_ ∧ _))

def NoLinks (fs : FileSystem) : Prop := ∀ loc target, fs.kind loc ≠ some (.leaf (.link target))

/-- The area leads nowhere, to a file that is unreadable or confined, to a directory under the root,
or to a directory elsewhere whose walk meets no source file outside the root. -/
def AreaConfined (scanner : Scanner) (fs : FileSystem) (base : Loc) (targetArea : Bytes) : Prop :=
  match fs.resolve (scanner.start targetArea) with
  | .error _ => True
  | .ok place =>
      match fs.kind place with
      | some (.leaf (.file _ true)) => Confined base place
      | some .dir =>
          base <:+ place ∨
            ∀ entry ∈ visited fs (entries fs (scanner.start targetArea) place),
              (scanner.source fs entry).isSome → base <:+ entry.loc
      | _ => True

variable {scanner : Scanner} {fs : FileSystem} {base place : Loc}

theorem confined_append (inner : List Name) :
    Confined base (inner ++ base) ↔ ∀ n ∈ inner, n.bytes ∉ excludedNames := by
  have taken : (inner ++ base).take ((inner ++ base).length - base.length) = inner := by
    simp
  unfold Confined
  rw [taken, and_iff_right (List.suffix_append inner base)]

def NamedBy (base : Loc) (listed : List Bytes) (loc : Loc) : Prop :=
  ∃ outer shared, loc = outer ++ shared ∧ shared <:+ base ∧ ∀ n ∈ outer, n.bytes ∈ listed

theorem NamedBy.append {listed : List Bytes} {loc : Loc} (named : NamedBy base listed loc)
    {inner : List Name} (members : ∀ n ∈ inner, n.bytes ∈ listed) :
        NamedBy base listed (inner ++ loc) := by
  obtain ⟨outer, shared, rfl, suffix, names⟩ := named
  refine ⟨inner ++ outer, shared, by simp, suffix, fun n member => ?_⟩
  exact (List.mem_append.1 member).elim (members n) (names n)

theorem NamedBy.tail {listed : List Bytes} {loc : Loc} (named : NamedBy base listed loc) :
    NamedBy base listed loc.tail := by
  obtain ⟨outer, shared, rfl, suffix, names⟩ := named
  cases outer with
  | nil => exact ⟨[], shared.tail, rfl, (List.tail_suffix shared).trans suffix, by simp⟩
  | cons n rest => exact ⟨rest, shared, rfl, suffix, fun m member =>
    names m (List.mem_cons_of_mem n member)⟩

theorem NamedBy.inner {listed : List Bytes} {inner : List Name}
    (named : NamedBy base listed (inner ++ base)) : ∀ n ∈ inner, n.bytes ∈ listed := by
  obtain ⟨outer, shared, split, suffix, names⟩ := named
  have shorter := suffix.length_le
  have initial : inner <+: outer := by
    refine List.prefix_of_prefix_length_le (List.prefix_append inner base)
      (split ▸ List.prefix_append _ _) ?_
    have lengths := congrArg List.length split
    simp only [List.length_append] at lengths
    omega
  exact fun n member => names n (initial.subset member)

theorem NamedBy.mono {listed more : List Bytes} {loc : Loc} (named : NamedBy base listed loc)
    (subset : listed ⊆ more) : NamedBy base more loc := by
  obtain ⟨outer, shared, same, suffix, names⟩ := named
  exact ⟨outer, shared, same, suffix, fun n member => subset (names n member)⟩

theorem walk_named (noLinks : NoLinks fs) {links : Nat} {pieces listed : List Bytes} {reached : Loc × Nat}
    (subset : ∀ piece ∈ pieces, piece ≠ [] → piece ∈ listed) (named : NamedBy base listed place)
    (walked : fs.walk links place (pieces.map Part.ofPiece) = .ok reached) :
        NamedBy base listed reached.1 := by
  induction pieces generalizing place with
  | nil =>
    rw [List.map_nil, walk_nil] at walked
    cases walked
    exact named
  | cons piece rest ih =>
    rw [List.forall_mem_cons] at subset
    rw [List.map_cons] at walked
    cases result : fs.step place (Part.ofPiece piece) with
    | error e => simp [walk_failed result] at walked
    | ok turn =>
      cases turn with
      | link target =>
        obtain ⟨n, -, -, there⟩ := step_link result
        exact absurd there (noLinks _ _)
      | place middle =>
        rw [walk_onward result] at walked
        refine ih subset.2 ?_ walked
        obtain ⟨n, same, rfl, -⟩ | ⟨-, rfl | rfl⟩ := step_place result
        · have bytes : n.bytes = piece := by
            unfold Part.ofPiece at same
            split_ifs at same
            cases same
            rfl
          have member : n.bytes ∈ listed := bytes ▸ subset.1 (bytes ▸ n.proper.1)
          have further : NamedBy base listed ([n] ++ place) := named.append (by simpa using member)
          exact further
        · exact named
        · exact named.tail

theorem start_named (rooted : Rooted fs scanner.root base) (noLinks : NoLinks fs) {targetArea : Bytes}
    (whole : null ∉ (scanner.start targetArea).text)
    (found : fs.resolve (scanner.start targetArea) = .ok place) :
    NamedBy base (named (scanner.start targetArea).text) place := by
  have root : ∀ listed, NamedBy base listed base := fun _ => ⟨[], base, rfl, List.suffix_refl _, by simp⟩
  unfold Scanner.start at *
  split_ifs at found whole ⊢ with empty
  · rw [rooted.resolves] at found
    cases found
    exact root _
  · obtain ⟨-, left, walked⟩ := resolve_ok found
    unfold Path.parts at walked
    rw [asked_plain whole] at walked
    cases kind : (ofBytes targetArea).absolute with
    | false =>
      obtain ⟨left', top⟩ := rooted.walk
      rw [components_join kind rooted.nonempty empty, List.map_append, start,
        absolute_join kind rooted.nonempty] at walked
      rw [start] at top
      rw [walk_append_ok _ top] at walked
      rw [named_join kind rooted.nonempty]
      exact walk_named noLinks (fun piece member some => List.mem_append_right _ (mem_components member some))
        (root _) walked
    | true =>
      simp only [join, kind, if_true] at walked ⊢
      rw [start, if_pos kind] at walked
      exact walk_named noLinks (fun piece => mem_components) ⟨[], [], rfl, List.nil_suffix, by simp⟩ walked

theorem settle_plain (noLinks : NoLinks fs) {entry : Entry} {reached : Loc}
    (status : settle fs entry = .ok reached) : reached = entry.loc := by
  unfold settle at status
  split at status
  · cases status
  · rename_i target there
    exact absurd there (noLinks _ _)
  · cases status
  · exact (Except.ok.inj status).symm

/-- The walk looks for excluded components on the whole path, so what it shows under the root is
confined. -/
theorem visited_confined (rooted : Rooted fs scanner.root base) (noLinks : NoLinks fs)
    {targetArea : Bytes} (found : fs.resolve (scanner.start targetArea) = .ok place) {entry : Entry}
    (met : entry ∈ visited fs (entries fs (scanner.start targetArea) place))
    (inside : base <:+ entry.loc) : Confined base entry.loc := by
  obtain ⟨listed, clean⟩ := List.mem_filter.1 ((List.takeWhile_sublist _).subset met)
  obtain ⟨whole, ns, some, -, rfl⟩ := (mem_entries entry).1 listed
  obtain ⟨inner, split⟩ := inside
  have grown : ∀ links, NamedBy base (below links (scanner.start targetArea) place ns).path.elements
      (below links (scanner.start targetArea) place ns).loc := by
    intro links
    have names := (components_below links (scanner.start targetArea) place some).1
    unfold Path.elements
    rw [names]
    refine ((start_named rooted noLinks whole found).mono fun piece member => by simp [member]).append
      fun n member => ?_
    have named : n.bytes ∈ ns.map Name.bytes := List.mem_map_of_mem (List.mem_reverse.1 member)
    simp [named]
  have named := grown (linksLeft fs (scanner.start targetArea))
  rw [← split] at named ⊢
  rw [confined_append]
  intro n member excluded
  have dirty : hasExcludedComponent (below (linksLeft fs (scanner.start targetArea))
      (scanner.start targetArea) place ns).path = true :=
    List.any_eq_true.2 ⟨_, named.inner n member, by simpa using excluded⟩
  simp [dirty] at clean

/-- Whatever the budget, a scan shows confined files only exactly when its area is confined. -/
theorem scan_confined_iff (rooted : Rooted fs scanner.root base) (noLinks : NoLinks fs)
    (targetArea : Bytes) :
    (∀ tokenBudget, ∀ source ∈ (scanner.scanShown fs targetArea tokenBudget).places,
      Confined base source.1) ↔ AreaConfined scanner fs base targetArea := by
  have whole : (∀ tokenBudget, ∀ source ∈ (scanner.scanShown fs targetArea tokenBudget).places,
      Confined base source.1) ↔ ∀ source ∈ scanner.sources fs targetArea, Confined base source.1 := by
    constructor
    · intro all source member
      apply all (UInt64.ofNat (UInt64.size - 1)) source
      rwa [scanShown_unbounded]
    · intro all tokenBudget source member
      exact all source ((scanShown_accounts targetArea tokenBudget).places.subset member)
  rw [whole]
  unfold AreaConfined
  cases found : fs.resolve (scanner.start targetArea) with
  | error e => simp [Scanner.sources, Scanner.candidates, found]
  | ok place =>
    simp only []
    cases kind : fs.kind place with
    | none => simp [Scanner.sources, Scanner.candidates, found, kind]
    | some what =>
      cases what with
      | dir =>
        simp only [(sources_directory found kind).mem_iff, List.mem_filterMap]
        constructor
        · intro all
          refine .inr fun entry met some => ?_
          obtain ⟨source, taken⟩ := Option.isSome_iff_exists.1 some
          have same := settle_plain noLinks (source_eq_some.1 taken).2.1
          exact same ▸ (all source ⟨entry, met, taken⟩).1
        · rintro inside source ⟨entry, met, taken⟩
          have same := settle_plain noLinks (source_eq_some.1 taken).2.1
          rw [same]
          apply visited_confined rooted noLinks found met
          rcases inside with under | each
          · obtain ⟨listed, -⟩ := List.mem_filter.1 ((List.takeWhile_sublist _).subset met)
            obtain ⟨-, ns, -, -, rfl⟩ := (mem_entries entry).1 listed
            exact under.trans (List.suffix_append _ _)
          · exact each entry met (Option.isSome_iff_exists.2 ⟨source, taken⟩)
      | leaf what =>
        cases what with
        | link target => exact absurd kind (noLinks _ _)
        | special => simp [Scanner.sources, Scanner.candidates, found, kind]
        | locked => simp [Scanner.sources, Scanner.candidates, found, kind]
        | broken => simp [Scanner.sources, Scanner.candidates, found, kind]
        | file content readable =>
          cases readable with
          | false => simp [Scanner.sources, Scanner.candidates, found, kind, readEntry, settle]
          | true => simp [Scanner.sources, Scanner.candidates, found, kind, readEntry, settle]

/-- A codebase `/r` with version-control data and a source file, beside a file that is not its own. -/
def besideTree : FileSystem where
  tree := .sub Samples.r
      (.sub (.ofAscii ".git" (by decide))
        (.leaf (.ofAscii "config" (by decide)) (.file (ascii "token") true) .nil)
        (.leaf Samples.aCpp (.file (ascii "int") true) .nil))
    (.sub Samples.o
      (.leaf (.ofAscii "s.cpp" (by decide)) (.file (ascii "key") true) .nil) .nil)
  distinct := by decide
  cwd := []

def besideRoot : Loc := [Samples.r]

def besideScanner : Scanner := ⟨ofBytes (ascii "/r"), defaultExtensions⟩

theorem besideTree_rooted : Rooted besideTree besideScanner.root besideRoot :=
  ⟨by decide, by decide, by decide⟩

theorem besideTree_noLinks : NoLinks besideTree := fun _ target => look_linkless (by decide) _ target

/-- An absolute area, an area that climbs out, a file area in an excluded directory, and one that goes on
behind a null byte are shown. -/
theorem scan_escapes : Rooted besideTree besideScanner.root besideRoot ∧ NoLinks besideTree ∧
    ∀ area ∈ ["/o/s.cpp", "/o", "../o", ".git/config", "../o/s.cpp\x00z"],
      ∃ source ∈ (besideScanner.scanShown besideTree (ascii area) 1000).places,
        ¬ Confined besideRoot source.1 :=
  ⟨besideTree_rooted, besideTree_noLinks, by decide⟩

theorem scan_confined_iff_beside :
    (∀ tokenBudget, ∀ source ∈ (besideScanner.scanShown besideTree (ascii "a.cpp") tokenBudget).places,
      Confined besideRoot source.1) ↔ AreaConfined besideScanner besideTree besideRoot (ascii "a.cpp") :=
  scan_confined_iff besideTree_rooted besideTree_noLinks (ascii "a.cpp")

end CppCoder.ScanConfinement
