import TwoPass.Text.Bytes

set_option autoImplicit false

/-!
# Paths

A path is a text of parts divided by slashes.  In a file tree the parts are followed from the top,
which is both the root and the directory that a command runs in, so a slash in front makes no
difference to where a path leads.  It does make one to the path without detours, which is found from
the text alone.
-/

namespace TwoPass.Path

/-- The number of bytes that a part of a path may have. -/
def partLimit : Nat := 255

/-- The number of bytes that a path may have. -/
def limit : Nat := 4095

/-- The part that stands for the directory itself. -/
def here : Bytes := [Ascii.dot]

/-- The part that stands for the directory above. -/
def above : Bytes := [Ascii.dot, Ascii.dot]

/-- The parts of a path.  Slashes at its ends and next to each other divide nothing, and one in
front is not kept: whether a path is rooted is asked apart from its parts. -/
def parts (path : Bytes) : List Bytes := (path.splitOn Ascii.slash).filter (!·.isEmpty)

/-- Whether a path ends in a slash. -/
def endsInSlash (path : Bytes) : Bool := path.getLast? == some Ascii.slash

/-- Whether a path starts with a slash. -/
def isRooted (path : Bytes) : Bool := path.head? == some Ascii.slash

/-- The parts of a path without detours, latest first, after one more part. -/
def pushPart (rooted : Bool) (kept : List Bytes) (part : Bytes) : List Bytes :=
  if part = here then kept
  else if part = above then
    match kept with
    | [] => if rooted then [] else [part]
    | last :: rest => if last = above then part :: last :: rest else rest
  else part :: kept

/-- The shortest path that reads the same, without looking at any file. -/
def clean (path : Bytes) : Bytes :=
  let kept := ((parts path).foldl (pushPart (isRooted path)) []).reverse
  if isRooted path then Ascii.slash :: [Ascii.slash].intercalate kept
  else if kept.isEmpty then here
  else [Ascii.slash].intercalate kept

/-- The path of a name in a directory. -/
def join (directory name : Bytes) : Bytes := clean (directory ++ Ascii.slash :: name)

/-- The path of the directory that a path is in, if the path names one. -/
def parent? (path : Bytes) : Option Bytes :=
  let beforeName :=
    ((path.reverse.dropWhile (· == Ascii.slash)).dropWhile (· != Ascii.slash)).reverse
  if 1 < beforeName.length then some beforeName.dropLast else none

/-- A path and the paths of the directories above it, the longest first, up to a number of them. -/
def lineageUpTo : Nat → Bytes → List Bytes
  | 0, _ => []
  | count + 1, path =>
    match parent? path with
    | none => [path]
    | some parent => path :: lineageUpTo count parent

/-- A path and the paths of all directories above it, the longest first.  Each one is shorter than
the one before it. -/
def lineage (path : Bytes) : List Bytes := lineageUpTo (path.length + 1) path

end TwoPass.Path
