import CppCoder.Support.Disk

/-! The files that the program opens for itself: how a stream empties a file, and how the log file comes about,
below directories that its sink makes on the way. -/

namespace CppCoder.Logging
open Support Utf8 Paths Disk FileSystem

/-- What opening a file leaves behind: the tree, the places made or emptied, and the file if it was opened. -/
structure Opened where
  fs : FileSystem
  places : List Loc := []
  file : Option Loc := none

def openTruncated (fs : FileSystem) (path : Bytes) : Opened :=
  match fs.openForWriting (ofBytes path) with
  | .error _ => { fs }
  | .ok file =>
      let emptied := if fs.kind file = some (.leaf .special) then fs else fs.writeFile file []
      { fs := emptied, places := [file], file := some file }

def pathExists (fs : FileSystem) (path : Bytes) : Bool := (fs.resolve (ofBytes path)).toOption.isSome

/-- The place of the directory that `mkdir` makes. A link at the end is not followed. -/
def newDirectory (fs : FileSystem) (path : Bytes) : Option Loc :=
  match (ofBytes path).parts.reverse.dropWhile (· = .trailing) with
  | .name n :: above =>
      match fs.walk linkMax (fs.start (ofBytes path)) above.reverse with
      | .error _ => none
      | .ok (place, _) =>
          if fs.kind place = some .dir ∧ fs.kind (n :: place) = none ∧ n.bytes.length ≤ fs.nameMax ∧
              (ofBytes path).asked.length < fs.pathMax then some (n :: place)
          else none
  | _ => none

/-- The loop of `create_dir`, if the system makes at most so many directories. -/
def makeDirs (fs : FileSystem) : Nat → List Bytes → Opened
  | _, [] => { fs }
  | room, subdir :: rest =>
      if subdir = [] ∨ pathExists fs subdir then makeDirs fs room rest
      else match room, newDirectory fs subdir with
        | room + 1, some place =>
            let made := makeDirs (fs.mkdir place) room rest
            { made with places := place :: made.places }
        | _, _ => { fs }

def subdirs (path : Bytes) : List Bytes :=
  ((List.range path.length).filter fun n => path[n]? = some slash).map path.take ++
    if path.getLast? = some slash then [] else [path]

def createDir (fs : FileSystem) (room : Nat) (path : Bytes) : Opened :=
  if pathExists fs path ∨ path = [] then { fs } else makeDirs fs room (subdirs path)

def dirName (path : Bytes) : Bytes := (path.rdropWhile (· ≠ slash)).dropLast

/-- `InitLogging` for a file that the system lets be opened or not, however often it is asked. -/
def initLogging (fs : FileSystem) (room : Nat) (allowed : Bool) (path : Bytes) : Opened :=
  let made := createDir fs room (dirName path)
  if allowed then
    let opened := openTruncated made.fs path
    { opened with places := made.places ++ opened.places }
  else made

/-- Two trees have the same at all other places. -/
def Apart (places : List Loc) (fs fs' : FileSystem) : Prop := ∀ loc, loc ∉ places → fs'.kind loc = fs.kind loc

theorem Apart.refl (places : List Loc) (fs : FileSystem) : Apart places fs fs := fun _ _ => rfl

theorem Apart.trans {first second : List Loc} {fs fs' fs'' : FileSystem} (one : Apart first fs fs')
    (two : Apart second fs' fs'') : Apart (first ++ second) fs fs'' := by
  intro loc outside
  obtain ⟨before, behind⟩ := not_or.1 (mt List.mem_append.2 outside)
  rw [two loc behind, one loc before]

theorem Apart.mono {places more : List Loc} {fs fs' : FileSystem} (apart : Apart places fs fs')
    (within : places ⊆ more) : Apart more fs fs' := fun loc outside => apart loc fun there => outside (within there)

theorem emptied_apart {fs : FileSystem} {path : Path} {file : Loc} (opened : fs.openForWriting path = .ok file)
    (content : Bytes) : Apart [file] fs (fs.writeFile file content) := by
  obtain ⟨-, went⟩ := openForWriting_ok opened
  obtain ⟨readable, written⟩ := kind_opened went content
  intro loc outside
  rw [written, if_neg (by simpa using outside)]

theorem openTruncated_apart (fs : FileSystem) (path : Bytes) :
    Apart (openTruncated fs path).places fs (openTruncated fs path).fs := by
  unfold openTruncated
  cases opened : fs.openForWriting (ofBytes path) with
  | error e => exact .refl _ fs
  | ok file =>
    dsimp only
    split_ifs with device
    · exact .refl _ fs
    · exact emptied_apart opened []

theorem openTruncated_file {fs : FileSystem} {path : Bytes} {file : Loc}
    (opened : (openTruncated fs path).file = some file) : file ∈ (openTruncated fs path).places := by
  unfold openTruncated at opened ⊢
  split at opened
  · cases opened
  · cases opened
    exact List.mem_singleton_self _

theorem mkdir_apart {fs : FileSystem} {path : Bytes} {place : Loc} (made : newDirectory fs path = some place) :
    Apart [place] fs (fs.mkdir place) := by
  unfold newDirectory at made
  split at made
  · rename_i n above _
    split at made
    · cases made
    · rename_i up _ _
      split_ifs at made with free
      cases made
      intro loc outside
      rw [kind_mkdir free.1 free.2.1, if_neg (by simpa using outside)]
  · cases made

theorem makeDirs_apart (fs : FileSystem) (room : Nat) (subdirs : List Bytes) :
    Apart (makeDirs fs room subdirs).places fs (makeDirs fs room subdirs).fs := by
  induction subdirs generalizing fs room with
  | nil => exact .refl _ fs
  | cons subdir rest ih =>
    unfold makeDirs
    split_ifs with there
    · exact ih fs room
    · cases room with
      | zero => exact .refl _ fs
      | succ room =>
        cases made : newDirectory fs subdir with
        | none => exact .refl _ fs
        | some place => exact (mkdir_apart made).trans (ih (fs.mkdir place) room)

theorem initLogging_apart (fs : FileSystem) (room : Nat) (allowed : Bool) (path : Bytes) :
    Apart (initLogging fs room allowed path).places fs (initLogging fs room allowed path).fs := by
  have made : Apart (createDir fs room (dirName path)).places fs (createDir fs room (dirName path)).fs := by
    unfold createDir
    split_ifs
    · exact .refl _ fs
    · exact makeDirs_apart fs room _
  unfold initLogging
  cases allowed with
  | false => exact made
  | true => exact made.trans (openTruncated_apart _ path)

end CppCoder.Logging
