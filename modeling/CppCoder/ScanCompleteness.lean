import CppCoder.CodebaseScanner
import CppCoder.Samples

/-! When a scan and a search find everything. A status query that fails leaves its error code to the
loop, which ends at the next entry, so that the rest of the walk is lost. -/

namespace CppCoder.ScanCompleteness
open Support Utf8 Paths Support.Tree Disk FileSystem Walk CppCoder.Types CodebaseScanner

variable {scanner : Scanner} {fs : FileSystem} {base place : Loc}

/-- A readable regular file below a directory, with a tracked extension and nothing excluded on the
path that leads to it. -/
structure Wanted (scanner : Scanner) (fs : FileSystem) (start : Path) (place file : Loc)
    (content : Bytes) : Prop where
  below : ∃ ns, ns ≠ [] ∧ file = ns.reverse ++ place ∧
    scanner.hasTrackedExtension (start.descend (ns.map Name.bytes)) = true ∧
    hasExcludedComponent (start.descend (ns.map Name.bytes)) = false
  readable : fs.kind file = some (.leaf (.file content true))

/-- Every wanted file of the area is listed exactly once, whatever the budget. -/
def ScanComplete (scanner : Scanner) (fs : FileSystem) (targetArea : Bytes) (place : Loc) : Prop :=
  ∀ (tokenBudget : UInt64) (file : Loc) (content : Bytes),
    Wanted scanner fs (scanner.start targetArea) place file content →
      ((scanner.scan fs targetArea tokenBudget).filesIncluded ++
        (scanner.scan fs targetArea tokenBudget).filesSkippedBudget).count (scanner.relative fs file) = 1

/-- The entries of the whole tree that match a keyword; a link counts as a match of its own. -/
def matching (scanner : Scanner) (fs : FileSystem) (base : Loc) (keyword : Bytes) : List Bytes :=
  ((entries fs scanner.root base).filter fun entry => !hasExcludedComponent entry.path).filterMap
    (scanner.hit fs keyword)

/-- Every wanted file that contains the keyword is found if fewer entries match than may be. -/
def FindComplete (scanner : Scanner) (fs : FileSystem) (base : Loc) : Prop :=
  ∀ (keyword : Bytes) (maxResults : Nat), (matching scanner fs base keyword).length < maxResults →
    ∀ (file : Loc) (content : Bytes), Wanted scanner fs scanner.root base file content →
      lowerFind content keyword = true →
        scanner.relative fs file ∈ scanner.findFilesMatchingKeyword fs keyword maxResults

def leadsTo (scanner : Scanner) (fs : FileSystem) (file : Loc) (entry : Entry) : Bool :=
  scanner.hasTrackedExtension entry.path &&
    match settle fs entry with
    | .ok reached => decide (reached = file)
    | .error _ => false

/-- How many of the entries that the walk looks at lead to the file. -/
def meetings (scanner : Scanner) (fs : FileSystem) (start : Path) (place file : Loc) : Nat :=
  (visited fs (entries fs start place)).countP (leadsTo scanner fs file)

theorem leadsTo_iff {file : Loc} {content : Bytes} {entry : Entry}
    (readable : fs.kind file = some (.leaf (.file content true))) :
    leadsTo scanner fs file entry = true ↔ scanner.source fs entry = some (file, content) := by
  rw [source_eq_some, and_iff_left readable]
  unfold leadsTo
  cases settle fs entry <;> simp

theorem count_relative (rooted : Rooted fs scanner.root base) {file : Loc} {content : Bytes}
    (readable : fs.kind file = some (.leaf (.file content true))) (found : List Entry) :
    ((found.filterMap (scanner.source fs)).map fun source => scanner.relative fs source.1).count
      (scanner.relative fs file) = found.countP (leadsTo scanner fs file) := by
  induction found with
  | nil => rfl
  | cons entry rest ih =>
    rw [List.countP_cons, List.filterMap_cons, ← ih]
    cases taken : scanner.source fs entry with
    | none =>
      have elsewhere : leadsTo scanner fs file entry = false := by
        rw [Bool.eq_false_iff, Ne, leadsTo_iff readable, taken]
        simp
      simp [elsewhere]
    | some source =>
      obtain ⟨reached, bytes⟩ := source
      simp only [List.map_cons, List.count_cons]
      congr 1
      by_cases same : reached = file
      · subst same
        have there := (source_eq_some.1 taken).2.2
        rw [readable] at there
        cases there
        simp [(leadsTo_iff readable).2 taken]
      · have elsewhere : leadsTo scanner fs file entry = false := by
          rw [Bool.eq_false_iff, Ne, leadsTo_iff readable, taken]
          simp [same]
        have apart : scanner.relative fs reached ≠ scanner.relative fs file := by
          rw [relative_rooted rooted, relative_rooted rooted]
          exact fun equal => same (spell_relativeTo_injective equal)
        simp [elsewhere, apart]

theorem scan_count (rooted : Rooted fs scanner.root base) {targetArea : Bytes} {file : Loc}
    {content : Bytes} (found : fs.resolve (scanner.start targetArea) = .ok place)
    (directory : fs.kind place = some .dir)
    (readable : fs.kind file = some (.leaf (.file content true))) (tokenBudget : UInt64) :
    ((scanner.scan fs targetArea tokenBudget).filesIncluded ++
      (scanner.scan fs targetArea tokenBudget).filesSkippedBudget).count (scanner.relative fs file) =
        meetings scanner fs (scanner.start targetArea) place file := by
  have listed := (@scanShown_accounts scanner fs targetArea tokenBudget).listed
  have order := (@sources_directory scanner fs targetArea place found directory).map fun source =>
    scanner.relative fs source.1
  -- the directory itself is no file, so it is not listed under the file's name
  have apart : scanner.relative fs file ∉ scanner.shades fs targetArea := by
    intro member
    have same := mem_shades found member
    rw [relative_rooted rooted, relative_rooted rooted] at same
    rw [spell_relativeTo_injective same, directory] at readable
    cases readable
  refine ((listed.trans (order.append_right _)).count_eq _).trans ?_
  rw [List.count_append, List.count_eq_zero.2 apart, Nat.add_zero]
  exact count_relative rooted readable _

theorem mem_find (rooted : Rooted fs scanner.root base) {keyword : Bytes} {maxResults : Nat}
    (few : (matching scanner fs base keyword).length < maxResults) (text : Bytes) :
    text ∈ scanner.findFilesMatchingKeyword fs keyword maxResults ↔
      ∃ entry ∈ visited fs (entries fs scanner.root base), scanner.hit fs keyword entry = some text := by
  have limit : 0 < max maxResults 1 := by omega
  have all : ((visited fs (entries fs scanner.root base)).filterMap (scanner.hit fs keyword)).length ≤
      (matching scanner fs base keyword).length :=
    ((List.takeWhile_sublist _).filterMap _).length_le
  unfold Scanner.findFilesMatchingKeyword
  simp only [rooted.resolves, rooted.directory]
  rw [grep_eq keyword maxResults [] _ limit, List.nil_append, List.take_of_length_le (by omega)]
  exact List.mem_filterMap

/-- Where no link leads to a file, a wanted file is met once or not at all: not at all if the walk
ends before it. -/
theorem meetings_plain {start : Path} {file : Loc} {content : Bytes}
    (plain : ∀ entry reached, settle fs entry = .ok reached → reached = entry.loc)
    (wanted : Wanted scanner fs start place file content) :
    meetings scanner fs start place file = 1 ↔
      ∃ entry ∈ visited fs (entries fs start place), entry.loc = file := by
  have own : ∀ entry, leadsTo scanner fs file entry = true → entry.loc = file := by
    intro entry leads
    exact (plain _ _ (source_eq_some.1 ((leadsTo_iff wanted.readable).1 leads)).2.1).symm
  have once : meetings scanner fs start place file ≤ 1 := by
    have distinct : ((visited fs (entries fs start place)).map Entry.loc).Nodup :=
      (entries_loc_nodup fs start place).sublist
        (((List.takeWhile_sublist _).trans List.filter_sublist).map Entry.loc)
    calc meetings scanner fs start place file
        ≤ (visited fs (entries fs start place)).countP fun entry => entry.loc == file :=
          List.countP_mono_left fun entry _ leads => beq_iff_eq.2 (own entry leads)
      _ = ((visited fs (entries fs start place)).map Entry.loc).count file :=
          by rw [List.count, List.countP_map]; rfl
      _ ≤ 1 := List.nodup_iff_count_le_one.1 distinct file
  constructor
  · intro met
    have some : 0 < meetings scanner fs start place file := by omega
    obtain ⟨entry, member, leads⟩ := List.countP_pos_iff.1 some
    exact ⟨entry, member, own entry leads⟩
  · rintro ⟨entry, member, here⟩
    refine Nat.le_antisymm once (List.countP_pos_iff.2 ⟨entry, member, ?_⟩)
    obtain ⟨ns, -, rfl, tracked, -⟩ := wanted.below
    obtain ⟨found, excluded⟩ := List.mem_filter.1 ((List.takeWhile_sublist _).subset member)
    obtain ⟨-, ns', -, -, rfl⟩ := (mem_entries entry).1 found
    have same : ns' = ns := by simpa [Walk.below] using here
    subst same
    have status : settle fs (Walk.below (linksLeft fs start) start place ns') = .ok (ns'.reverse ++ place) := by
      simp only [settle, Walk.below, wanted.readable]
    exact (leadsTo_iff wanted.readable).2 (source_eq_some.2 ⟨tracked, status, wanted.readable⟩)

/-- A codebase `/r` with a dangling link read before a source file. -/
def danglingTree : FileSystem where
  tree := .sub Samples.r
    (.leaf (.ofAscii "a" (by decide)) (.link (ofBytes (ascii "gone")))
      (.leaf Samples.bCpp (.file (ascii "int") true) .nil)) .nil
  distinct := by decide
  cwd := []

def rootOf (path : String) : Scanner := ⟨ofBytes (ascii path), defaultExtensions⟩

def danglingFile : Loc := [Samples.bCpp, Samples.r]

theorem danglingTree_rooted :
    Rooted danglingTree (rootOf "/r").root [Samples.r] := ⟨by decide, by decide, by decide⟩

end CppCoder.ScanCompleteness
