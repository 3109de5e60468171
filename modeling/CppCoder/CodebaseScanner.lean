import CppCoder.Types
import CppCoder.Support.Walk
import Mathlib.Data.List.Sort

/-! Reading tracked source files below a root, up to a token budget, and searching them for a
keyword. The error code that a directory walk is given is the one that every status query of an
entry writes to. -/

namespace CppCoder.CodebaseScanner
open Support Utf8 Paths Support.Tree Disk FileSystem Walk CppCoder.Types

structure ScanResult where
  concatenatedContent : Bytes := []
  filesIncluded : List Bytes := []
  filesSkippedBudget : List Bytes := []
  approxTokens : UInt64 := 0
  deriving DecidableEq

structure Scanner where
  root : Path
  extensions : List Bytes

def defaultExtensions : List Bytes :=
  [ascii ".cpp", ascii ".h", ascii ".hpp", ascii ".cc", ascii ".cxx", ascii ".py", ascii ".rs",
    ascii ".scala"]

def excludedNames : List Bytes := [ascii ".git", ascii "build"]

def hasExcludedComponent (p : Path) : Bool := p.elements.any excludedNames.contains

def filename (p : Path) : Bytes := (components p.text).getLast?.getD []

/-- `path::extension`. -/
def extension (p : Path) : Bytes := suffix (filename p)

def Scanner.hasTrackedExtension (scanner : Scanner) (p : Path) : Bool :=
  scanner.extensions.contains (extension p)

def namesOf (parts : List Part) : List Name :=
  parts.filterMap fun part => match part with
    | .name n => some n
    | _ => none

/-- `fs::relative` of a place that exists, in the portable form; no path at all comes out empty. -/
def Scanner.relative (scanner : Scanner) (fs : FileSystem) (loc : Loc) : Bytes :=
  match fs.canonicalForm scanner.root with
  | .error _ => []
  | .ok base => if base.absolute then spell (relativeTo (namesOf base.parts).reverse loc) else []

def isRegularFile (fs : FileSystem) (place : Loc) : Bool :=
  match fs.kind place with
  | some (.leaf (.file _ _)) => true
  | _ => false

def readEntry (fs : FileSystem) (entry : Entry) : Option (Loc × Bytes) :=
  match settle fs entry with
  | .error _ => none
  | .ok place =>
      match fs.kind place with
      | some (.leaf (.file content true)) => some (place, content)
      | _ => none

/-- The walk of `Scan`: an error code that is set ends it at the next entry. -/
def Scanner.collect (scanner : Scanner) (fs : FileSystem) : Bool → List Entry → List Entry
  | _, [] => []
  | ec, entry :: rest =>
      if ec then []
      else if hasExcludedComponent entry.path then scanner.collect fs ec rest
      else match settle fs entry with
        | .error _ => scanner.collect fs true rest
        | .ok place =>
            if isRegularFile fs place && scanner.hasTrackedExtension entry.path then
              entry :: scanner.collect fs false rest
            else scanner.collect fs false rest

/-- Paths compare component by component. -/
def Entry.before (a b : Entry) : Prop := a.path.elements ≤ b.path.elements

instance : DecidableRel Entry.before := fun a b =>
  inferInstanceAs (Decidable (a.path.elements ≤ b.path.elements))

def Scanner.start (scanner : Scanner) (targetArea : Bytes) : Path :=
  if targetArea = [] then scanner.root else join scanner.root (ofBytes targetArea)

def Scanner.candidates (scanner : Scanner) (fs : FileSystem) (targetArea : Bytes) :
    List Entry :=
  let start := scanner.start targetArea
  let found : List Entry := match fs.resolve start with
    | .error _ => []
    | .ok place =>
        match fs.kind place with
        | some (.leaf (.file _ _)) => [⟨start, place, linksLeft fs start⟩]
        | some .dir => scanner.collect fs false (entries fs start place)
        | _ => []
  found.insertionSort Entry.before

/-- A result under construction, and the places whose content went into it. -/
structure Shown where
  result : ScanResult := {}
  places : List (Loc × Bytes) := []
  deriving DecidableEq

def header (relPath : Bytes) : Bytes := ascii "\n// ==== " ++ relPath ++ ascii " ====\n"

def Scanner.addFile (scanner : Scanner) (fs : FileSystem) (tokenBudget : UInt64)
    (shown : Shown) (entry : Entry) : Shown :=
  match readEntry fs entry with
  | none => shown
  | some (place, content) =>
      let result := shown.result
      let relPath := scanner.relative fs place
      let entryTokens := estimateTokens (header relPath) + estimateTokens content
      if tokenBudget < result.approxTokens + entryTokens then
        { shown with
          result := { result with filesSkippedBudget := result.filesSkippedBudget ++ [relPath] } }
      else
        { result := { result with
            concatenatedContent := result.concatenatedContent ++ header relPath ++ content
            filesIncluded := result.filesIncluded ++ [relPath]
            approxTokens := result.approxTokens + entryTokens }
          places := shown.places ++ [(place, content)] }

/-- Behind a null byte in the area, the path of every entry is read as the directory's own. A regular file
is known from the listing; what is opened for it is the directory, which reads as empty. -/
def Scanner.shades (scanner : Scanner) (fs : FileSystem) (targetArea : Bytes) : List Bytes :=
  let start := scanner.start targetArea
  match fs.resolve start with
  | .error _ => []
  | .ok place =>
      if null ∈ start.text then
        ((listing fs start place).filter fun entry => !hasExcludedComponent entry.path &&
          (isRegularFile fs entry.loc && scanner.hasTrackedExtension entry.path)).map
            fun _ => scanner.relative fs place
      else []

def Scanner.addShade (tokenBudget : UInt64) (shown : Shown) (relPath : Bytes) : Shown :=
  let result := shown.result
  let entryTokens := estimateTokens (header relPath) + estimateTokens []
  if tokenBudget < result.approxTokens + entryTokens then
    { shown with
      result := { result with filesSkippedBudget := result.filesSkippedBudget ++ [relPath] } }
  else
    { shown with
      result := { result with
        concatenatedContent := result.concatenatedContent ++ header relPath
        filesIncluded := result.filesIncluded ++ [relPath]
        approxTokens := result.approxTokens + entryTokens } }

def Scanner.scanShown (scanner : Scanner) (fs : FileSystem) (targetArea : Bytes)
    (tokenBudget : UInt64) : Shown :=
  (scanner.shades fs targetArea).foldl (Scanner.addShade tokenBudget)
    ((scanner.candidates fs targetArea).foldl (scanner.addFile fs tokenBudget) {})

def Scanner.scan (scanner : Scanner) (fs : FileSystem) (targetArea : Bytes)
    (tokenBudget : UInt64) : ScanResult := (scanner.scanShown fs targetArea tokenBudget).result

def toLower (b : UInt8) : UInt8 := if 65 ≤ b ∧ b ≤ 90 then b + 32 else b

def lowerFind (haystack needle : Bytes) : Bool := decide (needle.map toLower <:+: haystack.map toLower)

/-- The walk of `FindFilesMatchingKeyword`. Taking the relative path of a file that was just read
clears the error code. -/
def Scanner.grep (scanner : Scanner) (fs : FileSystem) (keyword : Bytes)
    (maxResults : Nat) : Bool → List Bytes → List Entry → List Bytes
  | _, matched, [] => matched
  | ec, matched, entry :: rest =>
      if ec then matched
      else if hasExcludedComponent entry.path then scanner.grep fs keyword maxResults ec matched rest
      else match settle fs entry with
        | .error _ => scanner.grep fs keyword maxResults true matched rest
        | .ok place =>
            if !isRegularFile fs place || !scanner.hasTrackedExtension entry.path then
              scanner.grep fs keyword maxResults false matched rest
            else match readEntry fs entry with
              | none => scanner.grep fs keyword maxResults false matched rest
              | some (place, content) =>
                  if lowerFind content keyword || lowerFind (filename entry.path) keyword then
                    let matched := matched ++ [scanner.relative fs place]
                    if maxResults ≤ matched.length then matched
                    else scanner.grep fs keyword maxResults false matched rest
                  else scanner.grep fs keyword maxResults false matched rest

def Scanner.findFilesMatchingKeyword (scanner : Scanner) (fs : FileSystem)
    (keyword : Bytes) (maxResults : Nat) : List Bytes :=
  match fs.resolve scanner.root with
  | .error _ => []
  | .ok place =>
      match fs.kind place with
      | some .dir => scanner.grep fs keyword maxResults false [] (entries fs scanner.root place)
      | _ => []

/-! ### What a walk and a reading come to -/

variable {scanner : Scanner} {fs : FileSystem}

def fails (fs : FileSystem) (entry : Entry) : Bool :=
  match settle fs entry with
  | .error _ => true
  | .ok _ => false

/-- The entries a walk looks at: the first that is not excluded and cannot be queried ends it. -/
def visited (fs : FileSystem) (found : List Entry) : List Entry :=
  (found.filter fun entry => !hasExcludedComponent entry.path).takeWhile fun entry => !fails fs entry

/-- What an entry that the walk looks at contributes. -/
def Scanner.source (scanner : Scanner) (fs : FileSystem) (entry : Entry) : Option (Loc × Bytes) :=
  if scanner.hasTrackedExtension entry.path then readEntry fs entry else none

theorem relative_rooted {base : Loc} (rooted : Rooted fs scanner.root base) (loc : Loc) :
    scanner.relative fs loc = spell (relativeTo base loc) := by
  unfold Scanner.relative
  rw [rooted.canonicalForm_root]
  have names : namesOf base.toPath.parts = base.reverse := by
    unfold namesOf
    rw [parts_toPath, List.filterMap_map]
    exact List.filterMap_some
  have absolute : base.toPath.absolute = true := rfl
  simp only [absolute, names, List.reverse_reverse, if_true]

theorem visited_cons (entry : Entry) (rest : List Entry) :
    visited fs (entry :: rest) =
      if hasExcludedComponent entry.path then visited fs rest
      else if fails fs entry then [] else entry :: visited fs rest := by
  unfold visited
  rw [List.filter_cons]
  split_ifs with here excluded broken broken <;> simp_all

theorem read_irregular {entry : Entry} {place : Loc} (status : settle fs entry = .ok place)
    (irregular : isRegularFile fs place = false) : readEntry fs entry = none := by
  unfold readEntry
  rw [status]
  simp only []
  split
  · rename_i there
    simp [isRegularFile, there] at irregular
  · rfl

theorem readEntry_eq_some {entry : Entry} {file : Loc} {content : Bytes} :
    readEntry fs entry = some (file, content) ↔
      settle fs entry = .ok file ∧ fs.kind file = some (.leaf (.file content true)) := by
  unfold readEntry
  cases status : settle fs entry with
  | error e => simp
  | ok place =>
    simp only [Except.ok.injEq]
    constructor
    · intro opened
      split at opened
      · rename_i there
        cases opened
        exact ⟨rfl, there⟩
      · cases opened
    · rintro ⟨rfl, there⟩
      rw [there]

theorem source_eq_some {entry : Entry} {file : Loc} {content : Bytes} :
    scanner.source fs entry = some (file, content) ↔
      scanner.hasTrackedExtension entry.path = true ∧ settle fs entry = .ok file ∧
        fs.kind file = some (.leaf (.file content true)) := by
  unfold Scanner.source
  split_ifs with tracked <;> simp [tracked, readEntry_eq_some]

def Scanner.isCandidate (scanner : Scanner) (fs : FileSystem) (entry : Entry) : Bool :=
  scanner.hasTrackedExtension entry.path &&
    match settle fs entry with
    | .error _ => false
    | .ok place => isRegularFile fs place

theorem collect_eq (found : List Entry) :
    scanner.collect fs false found = (visited fs found).filter (scanner.isCandidate fs) := by
  induction found with
  | nil => rfl
  | cons entry rest ih =>
    rw [visited_cons]
    simp only [Scanner.collect, Bool.false_eq_true, if_false]
    by_cases excluded : hasExcludedComponent entry.path = true
    · rw [if_pos excluded, if_pos excluded, ih]
    · rw [if_neg excluded, if_neg excluded]
      cases status : settle fs entry with
      | error e =>
        have broken : fails fs entry = true := by simp [fails, status]
        rw [if_pos broken]
        cases rest <;> rfl
      | ok place =>
        have sound : fails fs entry = false := by simp [fails, status]
        have candidate : scanner.isCandidate fs entry =
            (isRegularFile fs place && scanner.hasTrackedExtension entry.path) := by
          simp only [Scanner.isCandidate, status, Bool.and_comm]
        rw [sound, if_neg Bool.false_ne_true, List.filter_cons, candidate, ih]

theorem collect_read (found : List Entry) :
    (scanner.collect fs false found).filterMap (fun entry => readEntry fs entry) =
      (visited fs found).filterMap (scanner.source fs) := by
  rw [collect_eq, List.filterMap_filter]
  refine List.filterMap_congr fun entry _ => ?_
  unfold Scanner.isCandidate Scanner.source
  cases tracked : scanner.hasTrackedExtension entry.path with
  | false => rfl
  | true =>
    cases status : settle fs entry with
    | error e => simp [readEntry, status]
    | ok place =>
      cases regular : isRegularFile fs place with
      | true => simp [regular]
      | false => simp [regular, read_irregular status regular]

def Scanner.hit (scanner : Scanner) (fs : FileSystem) (keyword : Bytes) (entry : Entry) : Option Bytes :=
  (scanner.source fs entry).bind fun (place, content) =>
    if lowerFind content keyword || lowerFind (filename entry.path) keyword then
      some (scanner.relative fs place)
    else none

theorem hit_none (keyword : Bytes) {entry : Entry} {place : Loc} (status : settle fs entry = .ok place)
    (other : ¬ (isRegularFile fs place && scanner.hasTrackedExtension entry.path) = true) :
    scanner.hit fs keyword entry = none := by
  unfold Scanner.hit Scanner.source
  split_ifs with tracked
  · rw [read_irregular status (by simpa [tracked] using other)]
    rfl
  · rfl

theorem take_full {α : Type} {items : List α} {limit : Nat} (full : items.length + 1 = limit) (a : α)
    (later : List α) : (items ++ a :: later).take limit = items ++ [a] := by
  have length : (items ++ [a]).length = limit := by
    rw [List.length_append, List.length_singleton, full]
  rw [← length, List.append_cons items a later]
  exact List.take_left

theorem grep_eq (keyword : Bytes) (maxResults : Nat) (matched : List Bytes) (found : List Entry)
    (few : matched.length < max maxResults 1) :
    scanner.grep fs keyword maxResults false matched found =
      (matched ++ (visited fs found).filterMap (scanner.hit fs keyword)).take (max maxResults 1) := by
  induction found generalizing matched with
  | nil =>
    simp only [Scanner.grep, visited, List.filter_nil, List.takeWhile_nil, List.filterMap_nil,
      List.append_nil]
    exact (List.take_of_length_le (Nat.le_of_lt few)).symm
  | cons entry rest ih =>
    rw [visited_cons]
    simp only [Scanner.grep, Bool.false_eq_true, if_false]
    by_cases excluded : hasExcludedComponent entry.path = true
    · rw [if_pos excluded, if_pos excluded, ih _ few]
    · rw [if_neg excluded, if_neg excluded]
      cases status : settle fs entry with
      | error e =>
        have broken : fails fs entry = true := by simp [fails, status]
        rw [if_pos broken, List.filterMap_nil, List.append_nil,
          List.take_of_length_le (Nat.le_of_lt few)]
        cases rest <;> rfl
      | ok place =>
        have sound : fails fs entry = false := by simp [fails, status]
        rw [sound, if_neg Bool.false_ne_true, List.filterMap_cons]
        simp only []
        by_cases candidate : (isRegularFile fs place && scanner.hasTrackedExtension entry.path) = true
        · have regular := (Bool.and_eq_true_iff.1 candidate).1
          have tracked := (Bool.and_eq_true_iff.1 candidate).2
          simp only [regular, tracked, Bool.not_true, Bool.or_self, Bool.false_eq_true, if_false,
            Scanner.hit, Scanner.source, if_true]
          cases opened : readEntry fs entry with
          | none => exact ih _ few
          | some pair =>
            obtain ⟨target, content⟩ := pair
            simp only [Option.bind_some]
            split_ifs with hit full
            · -- this hit is the last one that fits
              have length : matched.length + 1 = max maxResults 1 := by
                simp only [List.length_append, List.length_singleton] at full
                omega
              exact (take_full length _ _).symm
            · simp only []
              rw [ih, List.append_assoc, List.singleton_append]
              simp only [List.length_append, List.length_singleton] at full ⊢
              omega
            · exact ih _ few
        · have nothing := hit_none keyword status candidate
          have skipped : (!isRegularFile fs place || !scanner.hasTrackedExtension entry.path) = true := by
            simpa [imp_iff_not_or] using candidate
          rw [if_pos skipped, nothing, ih _ few]

def Scanner.sources (scanner : Scanner) (fs : FileSystem) (targetArea : Bytes) : List (Loc × Bytes) :=
  (scanner.candidates fs targetArea).filterMap fun entry => readEntry fs entry

/-- What a scan goes through, by relative path and content. -/
def Scanner.files (scanner : Scanner) (fs : FileSystem) (targetArea : Bytes) : List (Bytes × Bytes) :=
  (scanner.sources fs targetArea).map (fun source => (scanner.relative fs source.1, source.2)) ++
    (scanner.shades fs targetArea).map fun relPath => (relPath, [])

/-- Text and lists of a result are those of the places shown and of what was shown for a null byte. -/
structure Shown.Sound (scanner : Scanner) (fs : FileSystem) (shown : Shown) (empties : List Bytes) :
    Prop where
  content : shown.result.concatenatedContent =
    (shown.places.flatMap fun source => header (scanner.relative fs source.1) ++ source.2) ++
      empties.flatMap header
  included : shown.result.filesIncluded =
    (shown.places.map fun source => scanner.relative fs source.1) ++ empties

/-- Every file that is read ends up in one of the two lists, and only such files are shown. -/
structure Shown.Accounts (scanner : Scanner) (fs : FileSystem) (shown : Shown)
    (sources : List (Loc × Bytes)) (shades : List Bytes) : Prop where
  listed : (shown.result.filesIncluded ++ shown.result.filesSkippedBudget).Perm
    ((sources.map fun source => scanner.relative fs source.1) ++ shades)
  places : shown.places.Sublist sources

theorem addFile_sound (tokenBudget : UInt64) (entry : Entry) {shown : Shown}
    (sound : shown.Sound scanner fs []) : (scanner.addFile fs tokenBudget shown entry).Sound scanner fs [] := by
  unfold Scanner.addFile
  cases opened : readEntry fs entry with
  | none => exact sound
  | some source =>
    simp only []
    split_ifs
    · exact ⟨sound.content, sound.included⟩
    · refine ⟨?_, ?_⟩
      · simp [sound.content]
      · simp [sound.included]

theorem addShade_sound (tokenBudget : UInt64) (relPath : Bytes) {shown : Shown} {empties : List Bytes}
    (sound : shown.Sound scanner fs empties) :
    ∃ empties, (Scanner.addShade tokenBudget shown relPath).Sound scanner fs empties := by
  unfold Scanner.addShade
  simp only []
  split_ifs
  · exact ⟨empties, sound.content, sound.included⟩
  · refine ⟨empties ++ [relPath], ?_, ?_⟩
    · simp [sound.content]
    · simp [sound.included]

theorem scanShown_sound (targetArea : Bytes) (tokenBudget : UInt64) :
    ∃ empties, (scanner.scanShown fs targetArea tokenBudget).Sound scanner fs empties := by
  unfold Scanner.scanShown
  have files : ((scanner.candidates fs targetArea).foldl (scanner.addFile fs tokenBudget) {}).Sound
      scanner fs [] :=
    List.foldlRecOn (motive := fun shown : Shown => shown.Sound scanner fs []) _ _ ⟨rfl, rfl⟩
      fun shown sound entry _ => addFile_sound tokenBudget entry sound
  exact List.foldlRecOn (motive := fun shown : Shown => ∃ empties, shown.Sound scanner fs empties) _ _
    ⟨[], files⟩ fun shown sound relPath _ => sound.elim fun empties sound =>
      addShade_sound tokenBudget relPath sound

theorem valid_blocks (blocks : List (Bytes × Bytes)) :
    Valid (blocks.flatMap fun block => header block.1 ++ block.2) ↔
      ∀ block ∈ blocks, Valid block.1 ∧ Valid block.2 := by
  induction blocks with
  | nil => simp
  | cons block rest ih =>
    rw [List.flatMap_cons, List.forall_mem_cons, ← ih]
    unfold header
    cases rest with
    | nil =>
      rw [List.flatMap_nil, List.append_nil, valid_between (valid_ascii _) (by decide), valid_ascii_append]
      simp
    | cons next rest =>
      rw [List.flatMap_cons]
      simp only [List.append_assoc, valid_ascii_append]
      rw [← List.append_assoc, valid_between (valid_ascii _) (by decide), ← List.append_assoc block.2,
        valid_between (valid_ascii _) (by decide), and_assoc]

/-- The text of a result is UTF-8 when the names and the contents of the files in it are. -/
theorem Shown.Sound.valid {shown : Shown} {empties : List Bytes} (sound : shown.Sound scanner fs empties) :
    Valid shown.result.concatenatedContent ↔
      (∀ name ∈ shown.result.filesIncluded, Valid name) ∧ ∀ source ∈ shown.places, Valid source.2 := by
  have blocks := valid_blocks
    (shown.places.map (fun source => (scanner.relative fs source.1, source.2)) ++
      empties.map fun relPath => (relPath, []))
  simp only [List.flatMap_append, List.flatMap_map, List.append_nil, List.forall_mem_append,
    List.forall_mem_map] at blocks
  rw [sound.content, sound.included, blocks, List.forall_mem_append, List.forall_mem_map, forall₂_and]
  have empty : Valid [] := valid_ascii ""
  simp only [empty, and_true]
  tauto

theorem addFile_accounts (tokenBudget : UInt64) (entry : Entry) {shown : Shown}
    {sources : List (Loc × Bytes)} (accounts : shown.Accounts scanner fs sources []) :
    (scanner.addFile fs tokenBudget shown entry).Accounts scanner fs
      (sources ++ (readEntry fs entry).toList) [] := by
  unfold Scanner.addFile
  have earlier := accounts.listed
  rw [List.append_nil] at earlier
  cases opened : readEntry fs entry with
  | none => simpa using accounts
  | some source =>
    simp only [Option.toList_some]
    split_ifs with skipped
    · refine ⟨?_, accounts.places.trans (List.sublist_append_left _ _)⟩
      simp only [List.map_append, List.map_cons, List.map_nil, ← List.append_assoc, List.append_nil]
      exact earlier.append_right _
    · refine ⟨?_, accounts.places.append (List.Sublist.refl _)⟩
      simp only [List.map_append, List.map_cons, List.map_nil, List.append_nil]
      have moved : ([scanner.relative fs source.1] ++ shown.result.filesSkippedBudget).Perm
          (shown.result.filesSkippedBudget ++ [scanner.relative fs source.1]) := List.perm_append_comm
      rw [List.append_assoc]
      apply (moved.append_left _).trans
      rw [← List.append_assoc]
      exact earlier.append_right _

theorem addShade_accounts (tokenBudget : UInt64) (relPath : Bytes) {shown : Shown}
    {sources : List (Loc × Bytes)} {shades : List Bytes}
    (accounts : shown.Accounts scanner fs sources shades) :
    (Scanner.addShade tokenBudget shown relPath).Accounts scanner fs sources (shades ++ [relPath]) := by
  unfold Scanner.addShade
  simp only []
  split_ifs
  · refine ⟨?_, accounts.places⟩
    simp only [← List.append_assoc]
    exact accounts.listed.append_right _
  · refine ⟨?_, accounts.places⟩
    have moved : ([relPath] ++ shown.result.filesSkippedBudget).Perm
        (shown.result.filesSkippedBudget ++ [relPath]) := List.perm_append_comm
    simp only [← List.append_assoc]
    rw [List.append_assoc]
    apply (moved.append_left _).trans
    rw [← List.append_assoc]
    exact accounts.listed.append_right _

theorem scanShown_accounts (targetArea : Bytes) (tokenBudget : UInt64) :
    (scanner.scanShown fs targetArea tokenBudget).Accounts scanner fs (scanner.sources fs targetArea)
      (scanner.shades fs targetArea) := by
  have run : ∀ (found : List Entry) (shown : Shown) (sources : List (Loc × Bytes)),
      shown.Accounts scanner fs sources [] →
      (found.foldl (scanner.addFile fs tokenBudget) shown).Accounts scanner fs
        (sources ++ found.filterMap fun entry => readEntry fs entry) [] := by
    intro found
    induction found with
    | nil => intro shown sources accounts; simpa using accounts
    | cons entry rest ih =>
      intro shown sources accounts
      have next := ih _ _ (addFile_accounts tokenBudget entry accounts)
      rw [List.append_assoc] at next
      have split : (entry :: rest).filterMap (fun entry => readEntry fs entry) =
          (readEntry fs entry).toList ++ rest.filterMap fun entry => readEntry fs entry := by
        cases opened : readEntry fs entry <;> simp [opened]
      rw [split]
      exact next
  have shade : ∀ (names : List Bytes) (shown : Shown) (sources : List (Loc × Bytes)) (shades : List Bytes),
      shown.Accounts scanner fs sources shades →
      (names.foldl (Scanner.addShade tokenBudget) shown).Accounts scanner fs sources (shades ++ names) := by
    intro names
    induction names with
    | nil => intro shown sources shades accounts; simpa using accounts
    | cons relPath rest ih =>
      intro shown sources shades accounts
      have next := ih _ _ _ (addShade_accounts tokenBudget relPath accounts)
      rwa [List.append_assoc, List.singleton_append] at next
  have whole := run (scanner.candidates fs targetArea) {} [] ⟨List.Perm.nil, List.Sublist.slnil⟩
  rw [List.nil_append] at whole
  exact shade _ _ _ _ whole

theorem scanShown_unbounded (targetArea : Bytes) :
    (scanner.scanShown fs targetArea (UInt64.ofNat (UInt64.size - 1))).places =
        scanner.sources fs targetArea := by
  have never : ∀ n : UInt64, ¬ UInt64.ofNat (UInt64.size - 1) < n := by
    intro n
    rw [UInt64.lt_iff_toNat_lt]
    have bound := n.toNat_lt
    simp only [UInt64.toNat_ofNat', UInt64.size]
    omega
  have run : ∀ (found : List Entry) (shown : Shown),
      (found.foldl (scanner.addFile fs (UInt64.ofNat (UInt64.size - 1))) shown).places =
        shown.places ++ found.filterMap fun entry => readEntry fs entry := by
    intro found
    induction found with
    | nil => intro shown; simp
    | cons entry rest ih =>
      intro shown
      rw [List.foldl_cons, ih]
      unfold Scanner.addFile
      cases opened : readEntry fs entry with
      | none => simp only [List.filterMap_cons, opened]
      | some source =>
        simp only [List.filterMap_cons, opened, if_neg (never _), List.append_assoc, List.singleton_append]
  unfold Scanner.scanShown
  refine List.foldlRecOn (motive := fun shown : Shown => shown.places = _) _ _
    ((run (scanner.candidates fs targetArea) {}).trans (List.nil_append _)) fun shown same relPath _ => ?_
  unfold Scanner.addShade
  simp only []
  split_ifs <;> exact same

theorem sources_directory {targetArea : Bytes} {place : Loc}
    (found : fs.resolve (scanner.start targetArea) = .ok place) (directory : fs.kind place = some .dir) :
    (scanner.sources fs targetArea).Perm
      ((visited fs (entries fs (scanner.start targetArea) place)).filterMap (scanner.source fs)) := by
  unfold Scanner.sources Scanner.candidates
  simp only [found, directory]
  rw [← collect_read]
  exact (List.perm_insertionSort _ _).filterMap _

theorem mem_shades {targetArea : Bytes} {place : Loc} (found : fs.resolve (scanner.start targetArea) = .ok place)
    {relPath : Bytes} (member : relPath ∈ scanner.shades fs targetArea) :
    relPath = scanner.relative fs place := by
  unfold Scanner.shades at member
  simp only [found] at member
  split_ifs at member
  · obtain ⟨entry, -, rfl⟩ := List.mem_map.1 member
    rfl
  · cases member

end CppCoder.CodebaseScanner
