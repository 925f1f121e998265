import Reckon.Files.Path
import Reckon.Text.Utf8
import Reckon.Decimal.Numeral

/-!
# The file system

A file system is a list of places with what stands there, and a working directory. There are no
links, so a path leads to one place, which `walk` finds component by component. The operations are
the ones that the program needs: reading a file, creating and writing one, and making directories.
Each gives the cause when it fails, and an operation of several steps also gives the file system
as those before the failure left it.

The working directory may have been removed while it is in use (`workingRemoved`). It then holds
nothing and takes nothing, but the directory above it can still be reached.

Access rights are not modelled: every file can be read and replaced, every directory can be entered
and takes new files, and whatever is made comes without a mode. Names are texts, so a directory
whose name is no UTF-8 has no place here.
-/

namespace Reckon

/-- Why an operation on files fails. -/
inductive SystemError
  | noSuchFile
  | alreadyExists
  | notADirectory
  | isADirectory
  | noSpace
  | nameTooLong
  | nullInPath
  | other (number : Nat) (text : Text)
  deriving DecidableEq

namespace SystemError

def numbered (text : Text) (number : Nat) : Text :=
  text ++ " (os error ".toList ++ Numeral.write number ++ [')']

def message : SystemError → Text
  | noSuchFile => numbered "No such file or directory".toList 2
  | alreadyExists => numbered "File exists".toList 17
  | notADirectory => numbered "Not a directory".toList 20
  | isADirectory => numbered "Is a directory".toList 21
  | noSpace => numbered "No space left on device".toList 28
  | nameTooLong => numbered "File name too long".toList 36
  | nullInPath => "file name contained an unexpected NUL byte".toList
  | other number text => numbered text number

end SystemError

/-- The components on the way from the root. -/
abbrev Location := List Text

/-- Devices keep nothing. `full` refuses every byte that is written to it, and gives zero bytes
without end when it is read; `null` takes every byte and forgets it, and reads as empty. -/
inductive Device
  | full
  | null
  deriving DecidableEq

inductive Node
  | file (content : Bytes)
  | directory
  | device (d : Device)
  deriving DecidableEq

structure FileSystem where
  nodes : List (Location × Node)
  workingDirectory : Location
  workingRemoved : Bool := false

/-- Where a walk along a path stands. -/
inductive Spot
  | present (loc : Location)
  | removed (loc : Location)

/-- What comes of opening a file and reading it to its end. -/
inductive ReadResult
  | unopened (cause : SystemError)
  | content (bytes : Bytes)
  | broken (before : Bytes) (cause : SystemError)

namespace FileSystem

/-- No component may have more bytes than this. -/
def longestName : Nat := 255

/-- No path may have this many bytes. -/
def pathLimit : Nat := 4096

def byteLength (t : Text) : Nat :=
  (Utf8.encode t).length

/-! ## Places -/

/-- What stands at a place; the root is a directory that is always there. -/
def nodeAt? (fs : FileSystem) (loc : Location) : Option Node :=
  if loc = [] then some .directory
  else (fs.nodes.find? fun entry => entry.1 == loc).map (·.2)

/-- Puts a node at a place, in place of what stood there. -/
def place (fs : FileSystem) (loc : Location) (node : Node) : FileSystem :=
  { fs with nodes := (fs.nodes.filter fun entry => entry.1 != loc) ++ [(loc, node)] }

/-- What was put at a place stands there. -/
theorem nodeAt?_place (fs : FileSystem) {loc : Location} (node : Node) (h : loc ≠ []) :
    (fs.place loc node).nodeAt? loc = some node := by
  have hf : (fs.nodes.filter fun entry => entry.1 != loc).find? (fun entry => entry.1 == loc)
      = none := by
    rw [List.find?_eq_none]
    intro entry he hl
    have hne := (List.mem_filter.1 he).2
    simp [beq_iff_eq.1 hl] at hne
  simp [nodeAt?, place, h, List.find?_append, hf]

/-- All other places are as before. -/
theorem nodeAt?_place_of_ne (fs : FileSystem) {loc other : Location} (node : Node)
    (h : other ≠ loc) : (fs.place loc node).nodeAt? other = fs.nodeAt? other := by
  -- taking out the old node of `loc` hides no other node
  have hf : (fs.nodes.filter fun entry => entry.1 != loc).find? (fun entry => entry.1 == other)
      = fs.nodes.find? fun entry => entry.1 == other := by
    rw [List.find?_filter]
    congr 1
    funext entry
    by_cases he : entry.1 = other
    · simp [he, h]
    · simp [he]
  have hl : (loc == other) = false := by simpa using fun e : loc = other => h e.symm
  simp only [nodeAt?, place, List.find?_append, hf, List.find?_cons, hl, List.find?_nil,
    Option.or_none]

/-- The absolute path of a place. -/
def pathOf (loc : Location) : Path :=
  if loc = [] then ['/'] else loc.flatMap fun name => '/' :: name

/-- The path of the working directory, while it is there. -/
def workingPath? (fs : FileSystem) : Option Path :=
  if fs.workingRemoved then none else some (pathOf fs.workingDirectory)

/-! ## Walking along a path -/

def isDirectoryAt (fs : FileSystem) (loc : Location) : Bool :=
  fs.nodeAt? loc == some .directory

/-- One component further. Only a directory can be entered or left upwards; above the root is the
root. -/
def enter (fs : FileSystem) (spot : Spot) (name : Text) : Except SystemError Spot :=
  match spot with
  | .removed loc =>
    if name = ['.'] then .ok (.removed loc)
    else if name = ['.', '.'] then .ok (.present loc.dropLast)
    else .error .noSuchFile
  | .present loc =>
    if !fs.isDirectoryAt loc then .error .notADirectory
    else if name = ['.'] then .ok (.present loc)
    else if name = ['.', '.'] then .ok (.present loc.dropLast)
    else if longestName < byteLength name then .error .nameTooLong
    else if (fs.nodeAt? (loc ++ [name])).isSome then .ok (.present (loc ++ [name]))
    else .error .noSuchFile

def walk (fs : FileSystem) : List Text → Spot → Except SystemError Spot
  | [], spot => .ok spot
  | name :: rest, spot =>
    match fs.enter spot name with
    | .ok next => fs.walk rest next
    | .error cause => .error cause

/-- The spot at which a walk along a path begins. -/
def startOf (fs : FileSystem) (p : Path) : Spot :=
  if p.isAbsolute then .present []
  else if fs.workingRemoved then .removed fs.workingDirectory
  else .present fs.workingDirectory

/-- What is wrong with a path before any place is looked at. -/
def refusal? (p : Path) : Option SystemError :=
  if '\x00' ∈ p then some .nullInPath
  else if p = [] then some .noSuchFile
  else if pathLimit ≤ byteLength p then some .nameTooLong
  else none

def isDirectorySpot (fs : FileSystem) : Spot → Bool
  | .present loc => fs.isDirectoryAt loc
  | .removed _ => true

/-- The spot that a path leads to. -/
def locate (fs : FileSystem) (p : Path) : Except SystemError Spot :=
  match refusal? p with
  | some cause => .error cause
  | none =>
    match fs.walk p.names (fs.startOf p) with
    | .error cause => .error cause
    | .ok spot =>
      if p.endsInSlash && !fs.isDirectorySpot spot then .error .notADirectory else .ok spot

def isDirectory (fs : FileSystem) (p : Path) : Bool :=
  match fs.locate p with
  | .ok spot => fs.isDirectorySpot spot
  | .error _ => false

/-! ## Reading -/

/-- Opening a directory succeeds, but nothing can be read from it. Both devices give no bytes here.
That is so of `null`. Reading `full` does not come to an end: a history that is opened on it is
never there to be used, and what follows from the empty content is then said of no run. -/
def read (fs : FileSystem) (p : Path) : ReadResult :=
  match fs.locate p with
  | .error cause => .unopened cause
  | .ok (.removed _) => .broken [] .isADirectory
  | .ok (.present loc) =>
    match fs.nodeAt? loc with
    | some (.file bytes) => .content bytes
    | some .directory => .broken [] .isADirectory
    | some (.device _) => .content []
    | none => .unopened .noSuchFile

/-! ## Creating -/

/-- The place for a new node: the directory must be there, the node need not. A path that ends in no
name of its own leads to a directory that exists already, and gives `occupied`. -/
def newPlace (fs : FileSystem) (p : Path) (occupied : SystemError) : Except SystemError Location :=
  match refusal? p with
  | some cause => .error cause
  | none =>
    match p.names.getLast? with
    | none => .error occupied
    | some last =>
      match fs.walk p.names.dropLast (fs.startOf p) with
      | .error cause => .error cause
      | .ok (.removed _) =>
        if last = ['.'] ∨ last = ['.', '.'] then .error occupied else .error .noSuchFile
      | .ok (.present loc) =>
        if !fs.isDirectoryAt loc then .error .notADirectory
        else if last = ['.'] ∨ last = ['.', '.'] then .error occupied
        else if longestName < byteLength last then .error .nameTooLong
        else .ok (loc ++ [last])

/-- The place of the file that writing to `p` creates or replaces. -/
def filePlace (fs : FileSystem) (p : Path) : Except SystemError Location :=
  match fs.newPlace p .isADirectory with
  | .error cause => .error cause
  | .ok loc =>
    if p.endsInSlash || fs.nodeAt? loc == some .directory then .error .isADirectory else .ok loc

def makeDirectory (fs : FileSystem) (p : Path) : Except SystemError FileSystem :=
  match fs.newPlace p .alreadyExists with
  | .error cause => .error cause
  | .ok loc =>
    if (fs.nodeAt? loc).isSome then .error .alreadyExists else .ok (fs.place loc .directory)

/-- Makes the first of the given directories, and before it those of the others that are missing;
each is the parent of the one before it. Directories made before a fault stay. -/
def makeMissing (fs : FileSystem) : List Path → FileSystem × Except SystemError Unit
  | [] => (fs, .ok ())
  | p :: above =>
    match fs.makeDirectory p with
    | .ok fs => (fs, .ok ())
    | .error .noSuchFile =>
      match fs.makeMissing above with
      | (fs, .error cause) => (fs, .error cause)
      | (fs, .ok ()) =>
        match fs.makeDirectory p with
        | .ok fs => (fs, .ok ())
        | .error cause => (fs, if fs.isDirectory p then .ok () else .error cause)
    | .error cause => (fs, if fs.isDirectory p then .ok () else .error cause)

/-- Makes a directory and the missing ones above it; one that is there already is as good. -/
def makeDirectories (fs : FileSystem) (p : Path) : FileSystem × Except SystemError Unit :=
  fs.makeMissing p.upward

end FileSystem

end Reckon
