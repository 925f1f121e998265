import Reckon.Text.Split

/-!
# Paths

A path is a text; `/` separates its components. The functions here look at the text only and ask no
file system. Two spellings of one place stay two paths: nothing is normalized, and a path is shown
the way it was put together.
-/

namespace Reckon

abbrev Path := Text

namespace Path

def isAbsolute (p : Path) : Bool :=
  p.head? == some '/'

/-- `p` seen from `base`: an absolute `p` stands for itself, otherwise one slash separates the two
unless `base` is empty or brings its own. -/
def join (base p : Path) : Path :=
  if p.isAbsolute then p
  else if base = [] ∨ base.getLast? = some '/' then base ++ p
  else base ++ '/' :: p

/-- The absolute form of `p`. Without a working directory there is none, and `p` stays as it is. -/
def absoluteFrom (workingPath? : Option Path) (p : Path) : Path :=
  match workingPath? with
  | some here => join here p
  | none => p

/-- The components that a walk along the path takes; empty ones do not count. -/
def names (p : Path) : List Text :=
  (splitOn '/' p).filter fun name => !name.isEmpty

/-- Whether a slash follows the last component, which then must be a directory. -/
def endsInSlash (p : Path) : Bool :=
  p.getLast? == some '/'

/-- A component that adds nothing to the place when it stands behind another one. -/
def isIdle (name : Text) : Bool :=
  name == [] || name == ['.']

/-- The path of a first component and of those behind it, given from the last to the first. An empty
first component is the root. -/
def spell (first : Text) (reversed : List Text) : Path :=
  if first = [] ∧ reversed = [] then ['/'] else joinWith ['/'] (first :: reversed.reverse)

/-- The path without its last component and the idle ones around it; neither the root nor the empty
path has such a component. The first component counts even if it is a dot. -/
def parent? (p : Path) : Option Path :=
  match splitOn '/' p with
  | [] => none
  | first :: rest =>
    match rest.reverse.dropWhile isIdle with
    | [] => if first = [] then none else some []
    | _ :: before => some (spell first (before.dropWhile isIdle))

/-- The paths that end in one of the components, from the last to the first; an idle one is passed
over. -/
def chain (first : Text) : List Text → List Path
  | [] => [spell first []]
  | name :: before =>
    if isIdle name then chain first before else spell first (name :: before) :: chain first before

/-- The path and the directories above it, nearest first. The empty path, which stands for the
working directory, is not among them. -/
def upward (p : Path) : List Path :=
  if p = [] then []
  else match splitOn '/' p with
    | [] => []
    | first :: rest => chain first rest.reverse

end Path

end Reckon
