import CppCoder.CodebaseScanner
import CppCoder.Samples

/-! One tree at two places. What a scan and a search return depends on the tree alone, except that
the names on the way to the root are looked at for exclusion as well. -/

namespace CppCoder.ScanPlacement
open Support Utf8 Paths Support.Tree Disk FileSystem Walk CppCoder.Types CodebaseScanner

/-- A file system with the tree below its canonical root. -/
structure Placement (tree : Dir) where
  fs : FileSystem
  root : Path
  base : Loc
  rooted : Rooted fs root base
  stands : fs.tree.inside base.reverse = some tree

variable {tree : Dir} {extensions : List Bytes}

def Placement.scanner (site : Placement tree) (extensions : List Bytes) : Scanner := ⟨site.root, extensions⟩

/-- What becomes of an entry: no status, no regular file, or one with its relative path and, if it
can be read, its content. -/
abbrev Outcome := Option (Option (Bytes × Option Bytes))

/-- What becomes of an entry below a directory of the tree, on a walk by this path. -/
def Placement.outcome (site : Placement tree) (start : Path) (ns names : List Name) : Outcome :=
  match settle site.fs (below (linksLeft site.fs start) start (ns.reverse ++ site.base) names) with
  | .error _ => none
  | .ok place =>
      match site.fs.kind place with
      | some (.leaf (.file content readable)) =>
          some (some (spell (relativeTo site.base place), if readable then some content else none))
      | _ => some none

def Placement.start (site : Placement tree) (targetArea : Bytes) : Path := (site.scanner []).start targetArea

/-- A relative area that leads to a directory of the tree. -/
structure Placement.Leads (site : Placement tree) (targetArea : Bytes) (ns : List Name) : Prop where
  relative : (ofBytes targetArea).absolute = false
  resolves : site.fs.resolve (site.start targetArea) = .ok (ns.reverse ++ site.base)
  directory : tree.look ns = some .dir

/-- Links, whose targets need not be in the tree, come to the same at both places. -/
def LinksAlike (a b : Placement tree) : Prop :=
  ∀ targetArea ns, a.Leads targetArea ns → b.Leads targetArea ns →
    ∀ names target, tree.look (ns ++ names) = some (.leaf (.link target)) →
      a.outcome (a.start targetArea) ns names = b.outcome (b.start targetArea) ns names

/-- Every scan of a directory and every search return the same at both places. -/
def Alike (a b : Placement tree) (extensions : List Bytes) : Prop :=
  (∀ targetArea ns tokenBudget, a.Leads targetArea ns → b.Leads targetArea ns →
    (a.scanner extensions).scan a.fs targetArea tokenBudget =
      (b.scanner extensions).scan b.fs targetArea tokenBudget) ∧
  ∀ keyword maxResults, (a.scanner extensions).findFilesMatchingKeyword a.fs keyword maxResults =
    (b.scanner extensions).findFilesMatchingKeyword b.fs keyword maxResults

/-! ### Scans of a tree that stands nowhere -/

def inTree (ns : List Name) : Path := (ofBytes []).descend (ns.map Name.bytes)

/-- The entries below a directory of the tree that a walk looks at if the area excludes nothing. -/
def trail (tree : Dir) (outcome : List Name → Outcome) (ns : List Name) : List (List Name) :=
  match tree.inside ns with
  | none => []
  | some d => (d.paths.filter fun names => !hasExcludedComponent (inTree names)).takeWhile
      fun names => (outcome names).isSome

def tracked (extensions : List Bytes) (names : List Name) : Bool :=
  extensions.contains (extension (inTree names))

def Outcome.regular : Outcome → Bool
  | some (some _) => true
  | _ => false

def Outcome.reading : Outcome → Option (Bytes × Bytes)
  | some (some (relPath, some content)) => some (relPath, content)
  | _ => none

def NamesBefore (a b : List Name) : Prop := a.map Name.bytes ≤ b.map Name.bytes

instance : DecidableRel NamesBefore := fun a b =>
  inferInstanceAs (Decidable (a.map Name.bytes ≤ b.map Name.bytes))

def isFile : Option Kind → Bool
  | some (.leaf (.file _ _)) => true
  | _ => false

def addReading (tokenBudget : UInt64) (result : ScanResult) : Option (Bytes × Bytes) → ScanResult
  | none => result
  | some (relPath, content) =>
      let entryTokens := estimateTokens (header relPath) + estimateTokens content
      if tokenBudget < result.approxTokens + entryTokens then
        { result with filesSkippedBudget := result.filesSkippedBudget ++ [relPath] }
      else
        { result with
          concatenatedContent := result.concatenatedContent ++ header relPath ++ content
          filesIncluded := result.filesIncluded ++ [relPath]
          approxTokens := result.approxTokens + entryTokens }

def shadesTree (tree : Dir) (extensions : List Bytes) (ns : List Name) : List Bytes :=
  match tree.inside ns with
  | none => []
  | some d => (d.paths.filter fun names => !hasExcludedComponent (inTree names) &&
      (isFile (tree.look (ns ++ names)) && tracked extensions names)).map
        fun _ => spell (relativeTo [] ns.reverse)

def shadeTree (tree : Dir) (extensions : List Bytes) (ns : List Name) (tokenBudget : UInt64) : ScanResult :=
  (shadesTree tree extensions ns).foldl (fun result relPath => addReading tokenBudget result (some (relPath, [])))
    {}

def scanTree (tree : Dir) (outcome : List Name → Outcome) (extensions : List Bytes) (ns : List Name)
    (tokenBudget : UInt64) : ScanResult :=
  (((trail tree outcome ns).filter fun names =>
      tracked extensions names && (outcome names).regular).insertionSort NamesBefore).foldl
    (fun result names => addReading tokenBudget result (outcome names).reading) {}

def scanArea (tree : Dir) (outcome : List Name → Outcome) (extensions : List Bytes) (targetArea : Bytes)
    (ns : List Name) (tokenBudget : UInt64) : ScanResult :=
  if null ∈ targetArea then shadeTree tree extensions ns tokenBudget
  else scanTree tree outcome extensions ns tokenBudget

def findTree (tree : Dir) (outcome : List Name → Outcome) (extensions : List Bytes) (keyword : Bytes)
    (maxResults : Nat) : List Bytes :=
  ((trail tree outcome []).filterMap fun names =>
    if tracked extensions names then
      (outcome names).reading.bind fun (relPath, content) =>
        if lowerFind content keyword || lowerFind (filename (inTree names)) keyword then some relPath
        else none
    else none).take (max maxResults 1)

/-- The walk for an area meets no readable source file, or no source file at all if the area has a null
byte. -/
def Bare (tree : Dir) (outcome : List Name → Outcome) (extensions : List Bytes) (targetArea : Bytes)
    (ns : List Name) : Prop :=
  if null ∈ targetArea then shadesTree tree extensions ns = []
  else ∀ names ∈ trail tree outcome ns, tracked extensions names = true → (outcome names).reading = none

def Barren (a b : Placement tree) (extensions : List Bytes) : Prop :=
  ∀ targetArea ns, a.Leads targetArea ns → b.Leads targetArea ns →
    hasExcludedComponent (ofBytes targetArea) = false →
      Bare tree (a.outcome (a.start targetArea) ns) extensions targetArea ns

/-! ### Entries of the tree -/

theorem Placement.kind_below (site : Placement tree) (ns : List Name) :
    site.fs.kind (ns.reverse ++ site.base) = tree.look ns := by
  simp only [kind, List.reverse_append, List.reverse_reverse]
  exact look_inside site.stands ns

theorem relativeTo_shift (base : Loc) (ns : List Name) :
    relativeTo base (ns.reverse ++ base) = relativeTo [] ns.reverse := by
  have parts : ∀ common : List Name, relativeParts common (common ++ ns) = ns.map Name.bytes := by
    intro common
    induction common with
    | nil => rfl
    | cons n rest ih => simpa [relativeParts] using ih
  unfold relativeTo
  rw [List.reverse_append, List.reverse_reverse, parts]
  rfl

theorem relativeTo_below (base : Loc) (ns : List Name) (nonempty : ns ≠ []) :
    relativeTo base (ns.reverse ++ base) = ns.map Name.bytes := by
  obtain ⟨n, rest, rfl⟩ := List.exists_cons_of_ne_nil nonempty
  rw [relativeTo_shift, relativeTo, List.reverse_reverse]
  rfl

theorem below_loc (site : Placement tree) (links : Nat) (start : Path) (ns names : List Name) :
    (below links start (ns.reverse ++ site.base) names).loc = (ns ++ names).reverse ++ site.base := by
  simp [below]

theorem outcome_plain (site : Placement tree) (start : Path) {ns names : List Name}
    (noLink : ∀ target, tree.look (ns ++ names) ≠ some (.leaf (.link target))) :
    site.outcome start ns names = match tree.look (ns ++ names) with
      | none => none
      | some (.leaf .broken) => none
      | some (.leaf (.file content readable)) =>
          some (some (spell ((ns ++ names).map Name.bytes), if readable then some content else none))
      | some _ => some none := by
  unfold Placement.outcome settle
  simp only [below_loc, site.kind_below]
  cases there : tree.look (ns ++ names) with
  | none => rfl
  | some what =>
    cases what with
    | dir => simp only [site.kind_below, there]
    | leaf what =>
      cases what with
      | link target => exact absurd there (noLink target)
      | broken => rfl
      | special => simp only [site.kind_below, there]
      | locked => simp only [site.kind_below, there]
      | file content readable =>
        have nonempty : ns ++ names ≠ [] := by
          intro none
          rw [none] at there
          cases there
        simp only [site.kind_below, there, relativeTo_below _ _ nonempty]

theorem outcome_same {a b : Placement tree} (links : LinksAlike a b) {targetArea : Bytes} {ns : List Name}
    (leadsA : a.Leads targetArea ns) (leadsB : b.Leads targetArea ns) :
    a.outcome (a.start targetArea) ns = b.outcome (b.start targetArea) ns := by
  funext names
  by_cases link : ∃ target, tree.look (ns ++ names) = some (.leaf (.link target))
  · obtain ⟨target, there⟩ := link
    exact links targetArea ns leadsA leadsB names target there
  · have noLink := not_exists.1 link
    rw [outcome_plain a _ noLink, outcome_plain b _ noLink]

section Below
variable (site : Placement tree) (start : Path) (ns names : List Name)

theorem fails_below :
    fails site.fs (below (linksLeft site.fs start) start (ns.reverse ++ site.base) names) =
      !(site.outcome start ns names).isSome := by
  unfold fails Placement.outcome
  cases settle site.fs (below (linksLeft site.fs start) start (ns.reverse ++ site.base) names) with
  | error e => rfl
  | ok place =>
    simp only []
    split <;> rfl

theorem reading_below :
    (readEntry site.fs (below (linksLeft site.fs start) start (ns.reverse ++ site.base) names)).map
      (fun source => ((site.scanner extensions).relative site.fs source.1, source.2)) =
        (site.outcome start ns names).reading := by
  have rooted : Rooted site.fs (site.scanner extensions).root site.base := site.rooted
  unfold Placement.outcome readEntry
  cases settle site.fs (below (linksLeft site.fs start) start (ns.reverse ++ site.base) names) with
  | error e => rfl
  | ok place =>
    simp only []
    cases there : site.fs.kind place with
    | none => rfl
    | some what =>
      cases what with
      | dir => rfl
      | leaf what =>
        cases what with
        | file content readable =>
          cases readable with
          | false => rfl
          | true => simp [Outcome.reading, relative_rooted rooted]
        | _ => rfl

theorem components_inTree (names : List Name) : components (inTree names).text = names.map Name.bytes := by
  cases names with
  | nil => rfl
  | cons n rest => exact (components_below 0 (ofBytes []) [] (List.cons_ne_nil n rest)).1

theorem excluded_inTree (names : List Name) : hasExcludedComponent (inTree names) =
    (names.map Name.bytes).any excludedNames.contains := by
  have relative : (inTree names).absolute = false := by
    cases names with
    | nil => rfl
    | cons n rest => exact (components_below 0 (ofBytes []) [] (List.cons_ne_nil n rest)).2
  simp [hasExcludedComponent, Path.elements, relative, components_inTree]

theorem any_components (text : Bytes) :
    (components text).any excludedNames.contains = (named text).any excludedNames.contains := by
  have empty : ([] : Bytes) ∉ excludedNames := by decide
  unfold components
  split_ifs <;> simp [empty]

theorem excluded_below (links : Nat) (nonempty : names ≠ []) :
    hasExcludedComponent (below links start (ns.reverse ++ site.base) names).path =
      (hasExcludedComponent start || hasExcludedComponent (inTree names)) := by
  obtain ⟨descended, absolute⟩ := components_below links start (ns.reverse ++ site.base) nonempty
  rw [excluded_inTree]
  unfold hasExcludedComponent Path.elements
  rw [descended, absolute]
  simp only [List.any_append, any_components, Bool.or_assoc]

theorem filename_below (links : Nat) (nonempty : names ≠ []) :
    filename (below links start (ns.reverse ++ site.base) names).path = filename (inTree names) := by
  unfold filename
  rw [(components_below links start _ nonempty).1, components_inTree,
    List.getLast?_append_of_ne_nil _ (by simpa using nonempty)]

theorem tracked_below (links : Nat) (nonempty : names ≠ []) :
    (site.scanner extensions).hasTrackedExtension (below links start (ns.reverse ++ site.base) names).path =
      tracked extensions names := by
  unfold Scanner.hasTrackedExtension tracked extension
  rw [filename_below site start ns names links nonempty]
  rfl

theorem candidate_below (nonempty : names ≠ []) :
    (site.scanner extensions).isCandidate site.fs
        (below (linksLeft site.fs start) start (ns.reverse ++ site.base) names) =
      (tracked extensions names && (site.outcome start ns names).regular) := by
  unfold Scanner.isCandidate
  rw [tracked_below site start ns names _ nonempty]
  unfold Placement.outcome isRegularFile
  congr 1
  cases settle site.fs (below (linksLeft site.fs start) start (ns.reverse ++ site.base) names) with
  | error e => rfl
  | ok place =>
    simp only []
    cases there : site.fs.kind place with
    | none => rfl
    | some what =>
      cases what with
      | dir => rfl
      | leaf what => cases what <;> rfl

theorem inside_below : site.fs.tree.inside (ns.reverse ++ site.base).reverse = tree.inside ns := by
  rw [List.reverse_append, List.reverse_reverse, inside_append site.stands]

theorem visited_below (plain : null ∉ start.text) :
    visited site.fs (entries site.fs start (ns.reverse ++ site.base)) =
      if hasExcludedComponent start then []
      else (trail tree (site.outcome start ns) ns).map
        (below (linksLeft site.fs start) start (ns.reverse ++ site.base)) := by
  unfold entries listing trail visited
  rw [if_neg plain, inside_below]
  cases tree.inside ns with
  | none => simp
  | some d =>
    simp only []
    rw [List.filter_map, List.takeWhile_map]
    have apart : d.paths.filter ((fun entry => !hasExcludedComponent entry.path) ∘
          below (linksLeft site.fs start) start (ns.reverse ++ site.base)) =
        d.paths.filter fun names => !(hasExcludedComponent start || hasExcludedComponent (inTree names)) :=
      List.filter_congr fun names member =>
        congrArg not (excluded_below site start ns names _ (paths_ne_nil member))
    rw [apart]
    cases clean : hasExcludedComponent start with
    | true => simp
    | false => simp [Function.comp_def, fails_below]

theorem shades_below : ((listing site.fs start (ns.reverse ++ site.base)).filter fun entry =>
      !hasExcludedComponent entry.path && (isRegularFile site.fs entry.loc &&
        (site.scanner extensions).hasTrackedExtension entry.path)).map
          (fun _ => (site.scanner extensions).relative site.fs (ns.reverse ++ site.base)) =
    if hasExcludedComponent start then [] else shadesTree tree extensions ns := by
  have rooted : Rooted site.fs (site.scanner extensions).root site.base := site.rooted
  have regular : ∀ names, isRegularFile site.fs
      (below (linksLeft site.fs start) start (ns.reverse ++ site.base) names).loc =
        isFile (tree.look (ns ++ names)) := by
    intro names
    rw [below_loc, isRegularFile, site.kind_below]
    rfl
  unfold listing shadesTree
  rw [inside_below, relative_rooted rooted, relativeTo_shift]
  cases tree.inside ns with
  | none => simp
  | some d =>
    simp only []
    rw [List.filter_map, List.map_map]
    have apart : d.paths.filter ((fun entry => !hasExcludedComponent entry.path &&
          (isRegularFile site.fs entry.loc && (site.scanner extensions).hasTrackedExtension entry.path)) ∘
            below (linksLeft site.fs start) start (ns.reverse ++ site.base)) =
        d.paths.filter fun names => !(hasExcludedComponent start || hasExcludedComponent (inTree names)) &&
          (isFile (tree.look (ns ++ names)) && tracked extensions names) := by
      refine List.filter_congr fun names member => ?_
      have nonempty := paths_ne_nil member
      simp only [Function.comp_apply, excluded_below site start ns names _ nonempty, regular,
        tracked_below site start ns names _ nonempty]
    rw [apart]
    cases clean : hasExcludedComponent start with
    | true => simp
    | false => simp [Function.comp_def]

end Below

theorem mem_trail_nonempty {outcome : List Name → Outcome} {ns names : List Name}
    (member : names ∈ trail tree outcome ns) : names ≠ [] := by
  unfold trail at member
  split at member
  · cases member
  · exact paths_ne_nil (List.mem_filter.1 ((List.takeWhile_sublist _).subset member)).1

section Leads
variable {site : Placement tree} {targetArea : Bytes} {ns : List Name}

theorem Placement.Leads.found (leads : site.Leads targetArea ns) :
    site.fs.resolve ((site.scanner extensions).start targetArea) = .ok (ns.reverse ++ site.base) :=
  leads.resolves

theorem Placement.Leads.excluded (leads : site.Leads targetArea ns) :
    hasExcludedComponent ((site.scanner extensions).start targetArea) =
      (hasExcludedComponent site.root || hasExcludedComponent (ofBytes targetArea)) := by
  have relative : Path.absolute ⟨targetArea⟩ = false := leads.relative
  unfold Scanner.start Placement.scanner ofBytes
  split_ifs with whole
  · rw [whole, show hasExcludedComponent ⟨[]⟩ = false from by decide, Bool.or_false]
  · unfold hasExcludedComponent Path.elements
    rw [absolute_join relative site.rooted.nonempty,
      components_join relative site.rooted.nonempty whole, relative]
    simp [any_components, Bool.or_assoc]

theorem Placement.Leads.plain_iff (leads : site.Leads targetArea ns) :
    null ∈ ((site.scanner extensions).start targetArea).text ↔ null ∈ targetArea := by
  have root : null ∉ site.root.text := site.rooted.plain
  have relative : Path.absolute ⟨targetArea⟩ = false := leads.relative
  unfold Scanner.start Placement.scanner ofBytes
  split_ifs with whole
  · simp [whole, root]
  · obtain ⟨front, text, -, initial, -⟩ := join_text relative site.rooted.nonempty
    have clean : null ∉ front := fun member => root (initial.subset member)
    have apart : null ≠ slash := by decide
    simp [text, clean, apart]

end Leads

theorem before_below (links : Nat) (start : Path) (place : Loc) {a b : List Name} (first : a ≠ [])
    (second : b ≠ []) :
    NamesBefore a b ↔ Entry.before (below links start place a) (below links start place b) := by
  have shared : ∀ (initial a b : List Bytes), initial ++ a ≤ initial ++ b ↔ a ≤ b := by
    intro initial a b
    induction initial with
    | nil => rfl
    | cons piece rest ih =>
      rw [List.cons_append, List.cons_append, List.cons_le_cons_iff, ih]
      simp
  obtain ⟨namesA, absoluteA⟩ := components_below links start place first
  obtain ⟨namesB, absoluteB⟩ := components_below links start place second
  unfold NamesBefore Entry.before Path.elements
  rw [namesA, namesB, absoluteA, absoluteB, shared, shared]

theorem addFile_result (scanner : Scanner) (fs : FileSystem) (tokenBudget : UInt64) (shown : Shown)
    (entry : Entry) : (scanner.addFile fs tokenBudget shown entry).result =
      addReading tokenBudget shown.result
        ((readEntry fs entry).map fun source => (scanner.relative fs source.1, source.2)) := by
  unfold Scanner.addFile
  cases readEntry fs entry with
  | none => rfl
  | some source =>
    simp only [Option.map_some, addReading]
    split_ifs <;> rfl

theorem addShade_result (tokenBudget : UInt64) (shown : Shown) (relPath : Bytes) :
    (Scanner.addShade tokenBudget shown relPath).result =
      addReading tokenBudget shown.result (some (relPath, [])) := by
  unfold Scanner.addShade addReading
  simp only [List.append_nil]
  split_ifs <;> rfl

/-- A scan of a placed tree is a scan of the tree, or nothing if the way to it is excluded. -/
theorem scan_eq {site : Placement tree} {targetArea : Bytes} {ns : List Name}
    (leads : site.Leads targetArea ns) (tokenBudget : UInt64) :
    (site.scanner extensions).scan site.fs targetArea tokenBudget =
      if hasExcludedComponent site.root || hasExcludedComponent (ofBytes targetArea) then {}
      else scanArea tree (site.outcome (site.start targetArea) ns) extensions targetArea ns tokenBudget := by
  have directory : site.fs.kind (ns.reverse ++ site.base) = some .dir :=
    (site.kind_below ns).trans leads.directory
  have starts : (site.scanner extensions).start targetArea = site.start targetArea := rfl
  unfold Scanner.scan Scanner.scanShown Scanner.candidates Scanner.shades scanArea
  simp only [leads.found, directory]
  rw [collect_eq]
  by_cases cut : null ∈ targetArea
  · rw [if_pos (leads.plain_iff.2 cut), if_pos cut, shades_below, leads.excluded]
    have nothing : entries site.fs ((site.scanner extensions).start targetArea) (ns.reverse ++ site.base) =
        [] := if_pos (leads.plain_iff.2 cut)
    rw [nothing]
    split_ifs
    · rfl
    · exact (List.foldl_hom Shown.result fun shown relPath =>
        (addShade_result tokenBudget shown relPath).symm).symm
  · have plain : null ∉ ((site.scanner extensions).start targetArea).text := mt leads.plain_iff.1 cut
    rw [if_neg plain, if_neg cut, visited_below _ _ _ plain, leads.excluded]
    split_ifs with excluded
    · rfl
    · rw [List.filter_map]
      have same : (trail tree (site.outcome (site.start targetArea) ns) ns).filter
            ((site.scanner extensions).isCandidate site.fs ∘
              below (linksLeft site.fs (site.start targetArea)) (site.start targetArea)
                (ns.reverse ++ site.base)) =
          (trail tree (site.outcome (site.start targetArea) ns) ns).filter fun names =>
            tracked extensions names && (site.outcome (site.start targetArea) ns names).regular :=
        List.filter_congr fun names member => candidate_below site _ ns names (mem_trail_nonempty member)
      have inhabited : ∀ names ∈ (trail tree (site.outcome (site.start targetArea) ns) ns).filter
          (fun names => tracked extensions names && (site.outcome (site.start targetArea) ns names).regular),
            names ≠ [] :=
        fun names member => mem_trail_nonempty (List.mem_filter.1 member).1
      rw [starts, same, ← List.map_insertionSort NamesBefore Entry.before _ _
        fun a first b second => before_below _ _ _ (inhabited a first) (inhabited b second),
        List.foldl_map, List.foldl_nil]
      unfold scanTree
      refine (List.foldl_hom Shown.result fun shown names => ?_).symm
      rw [addFile_result, reading_below]

theorem find_eq (site : Placement tree) (keyword : Bytes) (maxResults : Nat) :
    (site.scanner extensions).findFilesMatchingKeyword site.fs keyword maxResults =
      if hasExcludedComponent site.root then []
      else findTree tree (site.outcome site.root []) extensions keyword maxResults := by
  have limit : 0 < max maxResults 1 := by omega
  have rooted : Rooted site.fs (site.scanner extensions).root site.base := site.rooted
  have whole := visited_below site site.root [] rooted.plain
  unfold Scanner.findFilesMatchingKeyword
  simp only [rooted.resolves, rooted.directory]
  rw [grep_eq keyword maxResults [] _ limit, List.nil_append]
  change ((visited site.fs (entries site.fs site.root ([].reverse ++ site.base))).filterMap _).take _ = _
  rw [whole]
  split_ifs with excluded
  · exact List.take_nil
  · unfold findTree
    rw [List.filterMap_map]
    congr 1
    refine List.filterMap_congr fun names member => ?_
    have nonempty := mem_trail_nonempty member
    have reading := @reading_below tree extensions site site.root [] names
    simp only [Function.comp_apply, Scanner.hit, Scanner.source,
      tracked_below site site.root [] names _ nonempty, filename_below site site.root [] names _ nonempty]
    cases tracked extensions names with
    | false => rfl
    | true =>
      simp only [if_true, ← reading]
      cases readEntry site.fs (below (linksLeft site.fs site.root) site.root ([].reverse ++ site.base) names) with
      | none => rfl
      | some source => rfl

/-! ### What a scan of the tree returns -/

def listed (result : ScanResult) : Nat := result.filesIncluded.length + result.filesSkippedBudget.length

theorem listed_foldl {α : Type} (tokenBudget : UInt64) (reading : α → Option (Bytes × Bytes))
    (found : List α) (result : ScanResult) :
    listed (found.foldl (fun result names => addReading tokenBudget result (reading names)) result) =
      listed result + (found.filterMap reading).length := by
  induction found generalizing result with
  | nil => rfl
  | cons names rest ih =>
    rw [List.foldl_cons, ih, List.filterMap_cons]
    cases reading names with
    | none => rfl
    | some pair =>
      simp only [addReading, List.length_cons]
      split_ifs <;> simp only [listed, List.length_append, List.length_singleton] <;> omega

theorem scanTree_empty {outcome : List Name → Outcome} {ns : List Name} {tokenBudget : UInt64}
    (empty : scanTree tree outcome extensions ns tokenBudget = {}) :
    ∀ names ∈ trail tree outcome ns, tracked extensions names = true →
      (outcome names).reading = none := by
  intro names member source
  have total := listed_foldl tokenBudget (fun names => (outcome names).reading)
    (((trail tree outcome ns).filter fun names =>
      tracked extensions names && (outcome names).regular).insertionSort NamesBefore) {}
  have nothing : listed (scanTree tree outcome extensions ns tokenBudget) = 0 := by
    rw [empty]
    rfl
  unfold scanTree at nothing
  rw [total, show listed {} = 0 from rfl, Nat.zero_add, List.length_eq_zero_iff,
    List.filterMap_eq_nil_iff] at nothing
  by_cases regular : (outcome names).regular = true
  · refine nothing names ((List.perm_insertionSort _ _).mem_iff.2 ?_)
    exact List.mem_filter.2 ⟨member, by simp [source, regular]⟩
  · unfold Outcome.regular at regular
    unfold Outcome.reading
    split <;> simp_all

theorem scanTree_barren {outcome : List Name → Outcome} {ns : List Name}
    (barren : ∀ names ∈ trail tree outcome ns, tracked extensions names = true →
      (outcome names).reading = none) (tokenBudget : UInt64) :
    scanTree tree outcome extensions ns tokenBudget = {} := by
  unfold scanTree
  refine List.foldlRecOn (motive := fun result : ScanResult => result = {}) _ _ rfl
    fun result same names member => ?_
  obtain ⟨visited, source⟩ := List.mem_filter.1 ((List.perm_insertionSort _ _).mem_iff.1 member)
  rw [barren names visited (Bool.and_eq_true_iff.1 source).1, same]
  rfl

theorem scanArea_empty_iff {outcome : List Name → Outcome} {ns : List Name} {targetArea : Bytes}
    (tokenBudget : UInt64) : scanArea tree outcome extensions targetArea ns tokenBudget = {} ↔
      Bare tree outcome extensions targetArea ns := by
  unfold scanArea Bare
  split_ifs with cut
  · constructor
    · intro empty
      have total := listed_foldl tokenBudget (fun relPath : Bytes => some (relPath, ([] : Bytes)))
        (shadesTree tree extensions ns) {}
      have nothing : listed (shadeTree tree extensions ns tokenBudget) = 0 := by
        rw [empty]
        rfl
      unfold shadeTree at nothing
      rw [total] at nothing
      simpa [listed] using nothing
    · intro none
      rw [shadeTree, none]
      rfl
  · exact ⟨scanTree_empty, fun barren => scanTree_barren barren tokenBudget⟩

theorem findTree_barren {outcome : List Name → Outcome}
    (barren : ∀ names ∈ trail tree outcome [], tracked extensions names = true →
      (outcome names).reading = none) (keyword : Bytes) (maxResults : Nat) :
    findTree tree outcome extensions keyword maxResults = [] := by
  unfold findTree
  have nothing : ∀ names ∈ trail tree outcome [], (if tracked extensions names then
      (outcome names).reading.bind fun (relPath, content) =>
        if lowerFind content keyword || lowerFind (filename (inTree names)) keyword then some relPath
        else none
    else none) = none := by
    intro names member
    split_ifs with source
    · rw [barren names member source]
      rfl
    · rfl
  rw [List.filterMap_eq_nil_iff.2 nothing, List.take_nil]

theorem Placement.leads_root (site : Placement tree) : site.Leads [] [] := by
  exact ⟨by decide, site.rooted.resolves, rfl⟩

def checkout : Dir := .leaf Samples.aCpp (.file (ascii "int") true) .nil

/-- The checkout at `/r`. -/
def atTop : Placement checkout where
  fs := ⟨.sub Samples.r checkout .nil, by decide, [], 255, 4096⟩
  root := ofBytes (ascii "/r")
  base := [Samples.r]
  rooted := ⟨by decide, by decide, by decide⟩
  stands := rfl

/-- The checkout at `/build/r`. -/
def inBuild : Placement checkout where
  fs := ⟨.sub (.ofAscii "build" (by decide)) (.sub Samples.r checkout .nil) .nil,
    by decide, [], 255, 4096⟩
  root := ofBytes (ascii "/build/r")
  base := [Samples.r, .ofAscii "build" (by decide)]
  rooted := ⟨by decide, by decide, by decide⟩
  stands := rfl

theorem checkout_linksAlike : LinksAlike atTop inBuild := by
  intro targetArea ns _ _ names target link
  exact absurd link (look_linkless (by decide) (ns ++ names) target)

end CppCoder.ScanPlacement
