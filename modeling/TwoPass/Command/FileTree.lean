import TwoPass.Command.FileStore

set_option autoImplicit false

/-!
# File trees

A file tree is a file store as a value.  Its places are lists of names, and each may hold a file or
a directory.  The empty list is the top of the tree.  It is the root, and it is also where commands
run: there is nothing outside of the directory that a command runs in.  So a path with a slash in
front leads to the same place as one without, and the directory above the top is the top.
-/

namespace TwoPass

/-- What a place holds. -/
inductive Node where
  /-- a file with its content -/
  | file (content : Bytes)
  /-- a directory -/
  | directory
  deriving DecidableEq, Repr, Inhabited

/-- A place in a tree. -/
abbrev Place : Type := List Bytes

/-- A file tree. -/
structure FileTree where
  /-- what the places hold, each place once, latest first -/
  entries : List (Place × Node)
  deriving DecidableEq, Repr, Inhabited

namespace FileTree

/-- A tree that holds nothing. -/
def empty : FileTree := ⟨[]⟩

/-- What a place holds. -/
def node? (tree : FileTree) (place : Place) : Option Node :=
  if place.isEmpty then some .directory else tree.entries.lookup place

/-- Puts something at a place, instead of what it held. -/
def put (tree : FileTree) (place : Place) (node : Node) : FileTree :=
  ⟨(place, node) :: tree.entries.filter fun entry => entry.1 != place⟩

/-- Dropping the entries of one place leaves those of the others. -/
theorem lookup_filter_ne {place p : Place} (entries : List (Place × Node)) (other : p ≠ place) :
    (entries.filter fun entry => entry.1 != place).lookup p = entries.lookup p := by
  induction entries with
  | nil => rfl
  | cons entry rest ih =>
    obtain ⟨q, node⟩ := entry
    by_cases dropped : q = place
    · subst dropped
      simp [List.lookup_cons, beq_false_of_ne other, ih]
    · simp [List.lookup_cons, dropped, ih]

/-- A place holds what was last put there. -/
theorem node?_put (tree : FileTree) {place : Place} (node : Node) (p : Place)
    (inside : place ≠ []) :
    (tree.put place node).node? p = if p = place then some node else tree.node? p := by
  by_cases same : p = place
  · subst same
    simp [node?, put, inside]
  · simp [node?, put, same, List.lookup_cons, beq_false_of_ne same, lookup_filter_ne]

/-! ## Finding places -/

/-- The place that a part of a path leads to.  Above the top there is only the top itself. -/
def follow (place : Place) (part : Bytes) : Place :=
  if part = Path.here then place
  else if part = Path.above then place.dropLast
  else place ++ [part]

/-- Looks up a part of a path at a place, which has to hold a directory. -/
def step (tree : FileTree) (place : Place) (part : Bytes) : Except PathFault Place :=
  match tree.node? place with
  | none => .error .missing
  | some (.file _) => .error .notDirectory
  | some .directory =>
    if Path.partLimit < part.length then .error .tooLong else .ok (follow place part)

/-- The place that some parts of a path lead to from the top, whether the path is rooted or relative
to the directory that a command runs in.  The whole path has to be neither empty nor too long. -/
def walk (tree : FileTree) (path : Bytes) (parts : List Bytes) : Except PathFault Place :=
  if path.isEmpty then .error .missing
  else if Path.limit < path.length then .error .tooLong
  else parts.foldlM tree.step []

/-- The place of a path. -/
def locate (tree : FileTree) (path : Bytes) : Except PathFault Place :=
  tree.walk path (Path.parts path)

/-- What a path leads to.  A path that ends in a slash leads to directories only. -/
def find (tree : FileTree) (path : Bytes) : Except PathFault Node :=
  match tree.locate path with
  | .error fault => .error fault
  | .ok place =>
    match tree.node? place with
    | none => .error .missing
    | some .directory => .ok .directory
    | some (.file content) =>
      if Path.endsInSlash path then .error .notDirectory else .ok (.file content)

/-! ## Operations -/

/-- What kind of thing is at a path. -/
def kind (tree : FileTree) (path : Bytes) : Except PathFault PathKind :=
  match tree.find path with
  | .error fault => .error fault
  | .ok (.file _) => .ok .file
  | .ok .directory => .ok .directory

/-- Opens a file for reading. -/
def openFile (tree : FileTree) (path : Bytes) : Except BadPath Input :=
  match tree.find path with
  | .error fault => .error ⟨path, fault⟩
  | .ok (.file content) => .ok (.ofBytes content)
  | .ok .directory => .ok ⟨[], some (.isDirectory path)⟩

/-- The place where a file can be created.  There is none for a path that ends in a slash, whose
last part is not even looked up. -/
def newFilePlace (tree : FileTree) (path : Bytes) : Except PathFault Place :=
  if Path.endsInSlash path then
    match tree.walk path ((Path.parts path).dropLast ++ [Path.here]) with
    | .error fault => .error fault
    | .ok _ => .error .isDirectory
  else
    match tree.locate path with
    | .error fault => .error fault
    | .ok place => if tree.node? place = some .directory then .error .isDirectory else .ok place

/-- Creates a file, in place of an old one. -/
def createFile (tree : FileTree) (path content : Bytes) : Except BadPath FileTree :=
  match tree.newFilePlace path with
  | .error fault => .error ⟨path, fault⟩
  | .ok place => .ok (tree.put place (.file content))

/-- Makes a directory where there is nothing. -/
def makeDirectory (tree : FileTree) (path : Bytes) : Except PathFault FileTree :=
  match tree.locate path with
  | .error fault => .error fault
  | .ok place =>
    match tree.node? place with
    | some _ => .error .taken
    | none => .ok (tree.put place .directory)

/-! ## Building and comparing trees -/

/-- The places above a place, itself included, from the top. -/
def above (place : Place) : List Place := (List.range place.length).map fun n => place.take (n + 1)

/-- Makes directories at a place and above it, where there is nothing. -/
def withDirectories (tree : FileTree) (place : Place) : FileTree :=
  (above place).foldl (fun made p =>
    if (made.node? p).isSome then made else made.put p .directory) tree

/-- Adds a file and the directories above it.  A path that ends in a slash adds a directory. -/
def withFile (tree : FileTree) (path content : Bytes) : FileTree :=
  let place := Path.parts path
  if Path.endsInSlash path then tree.withDirectories place
  else (tree.withDirectories place.dropLast).put place (.file content)

/-- The files of a tree that another one does not hold with the same content, by path. -/
def changesSince (tree before : FileTree) : List (Bytes × Bytes) :=
  tree.entries.filterMap fun (place, node) =>
    match node with
    | .directory => none
    | .file content =>
      if before.node? place == some node then none
      else some ([Ascii.slash].intercalate place, content)

end FileTree

/-- A tree as the state of a computation is a file store. -/
instance : FileStore (StateM FileTree) where
  kind path := fun tree => (tree.kind path, tree)
  openFile path := fun tree => (tree.openFile path, tree)
  makeDirectory path := fun tree =>
    match tree.makeDirectory path with
    | .ok next => (.ok (), next)
    | .error fault => (.error fault, tree)
  createFile path content := fun tree =>
    match tree.createFile path content with
    | .ok next => (.ok (), next)
    | .error bad => (.error bad, tree)

end TwoPass
