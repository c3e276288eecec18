import TwoPass.Command.FileTree
import TwoPass.Proofs.Command.Paths
import TwoPass.Proofs.Outcome

set_option autoImplicit false

/-!
# Walking and growing file trees

A path leads from place to place, and every place on the way but the last has to hold a directory.
Dropping the detours of a path does not change where it leads, as long as it leads somewhere; so the
path of a name in a directory leads to that name in the place of the directory.

Making a directory with those above it grows a tree: all that was there stays, and no file is added.
-/

namespace TwoPass

open TwoPass.Path

namespace FileTree

/-! ## Walks -/

/-- Parts of a path that lead from one place to another.  Every place that is left holds a
directory. -/
inductive Leads (tree : FileTree) : Place → List Bytes → Place → Prop where
  | stay (place : Place) : Leads tree place [] place
  | go {place target : Place} {part : Bytes} {parts : List Bytes}
    (directory : tree.node? place = some .directory)
      (short : part.length ≤ partLimit) (onward : Leads tree (follow place part) parts target) :
      Leads tree place (part :: parts) target

theorem step_eq_ok_iff {tree : FileTree} {place target : Place} {part : Bytes} :
    tree.step place part = .ok target ↔
      tree.node? place = some .directory ∧ part.length ≤ partLimit ∧
      follow place part = target := by
  unfold step
  split
  · simp [*]
  · simp [*]
  · rename_i hdirectory
    split
    · simp [hdirectory]
      omega
    · rename_i hshort
      simp [hdirectory, Nat.not_lt.mp hshort]

theorem foldlM_step_eq_ok_iff {tree : FileTree} {place target : Place} {parts : List Bytes} :
    parts.foldlM tree.step place = .ok target ↔ tree.Leads place parts target := by
  induction parts generalizing place with
  | nil =>
    rw [List.foldlM_nil]
    constructor
    · rintro ⟨⟩
      exact .stay _
    · rintro ⟨⟩
      rfl
  | cons part parts ih =>
    rw [List.foldlM_cons, bind_eq_ok_iff]
    constructor
    · rintro ⟨next, hstep, hparts⟩
      obtain ⟨hdirectory, hshort, rfl⟩ := step_eq_ok_iff.mp hstep
      exact .go hdirectory hshort (ih.mp hparts)
    · rintro (_ | ⟨hdirectory, hshort, honward⟩)
      exact ⟨follow place part, step_eq_ok_iff.mpr ⟨hdirectory, hshort, rfl⟩, ih.mpr honward⟩

theorem leads_append_iff {tree : FileTree} {place target : Place} {front back : List Bytes} :
    tree.Leads place (front ++ back) target ↔
      ∃ between, tree.Leads place front between ∧ tree.Leads between back target := by
  simp only [← foldlM_step_eq_ok_iff, List.foldlM_append, bind_eq_ok_iff]

theorem leads_singleton_iff {tree : FileTree} {place target : Place} {part : Bytes} :
    tree.Leads place [part] target ↔
      tree.node? place = some .directory ∧ part.length ≤ partLimit ∧
      follow place part = target := by
  rw [← step_eq_ok_iff, ← foldlM_step_eq_ok_iff, List.foldlM_cons, bind_eq_ok_iff]
  exact ⟨fun ⟨_, hstep, hstay⟩ => by cases hstay; exact hstep, fun hstep => ⟨target, hstep, rfl⟩⟩

/-- A tree that has the directories of another one has its walks. -/
theorem Leads.mono {tree later : FileTree} {place target : Place} {parts : List Bytes}
    (hdirectories : ∀ p, tree.node? p = some .directory → later.node? p = some .directory)
    (h : tree.Leads place parts target) : later.Leads place parts target := by
  induction h with
  | stay place => exact .stay place
  | go hdirectory hshort _ ih => exact .go (hdirectories _ hdirectory) hshort ih

/-! ## Walks without detours -/

/-- The parts kept so far, latest first, lead to a place, and none of them stays where it is. -/
structure Retraced (tree : FileTree) (kept : List Bytes) (place : Place) : Prop where
  leads : tree.Leads [] kept.reverse place
  moves : ∀ part ∈ kept, part ≠ here

/-- One more part that is followed and one more part that is kept lead to the same place. -/
theorem Retraced.pushPart {tree : FileTree} {kept : List Bytes} {place : Place} {part : Bytes}
    (rooted : Bool) (h : tree.Retraced kept place) (hdirectory : tree.node? place = some .directory)
    (hshort : part.length ≤ partLimit) :
    tree.Retraced (pushPart rooted kept part) (follow place part) := by
  have hkeep : part ≠ here → tree.Retraced (part :: kept) (follow place part) := by
    intro hmoves
    refine ⟨?_, List.forall_mem_cons.mpr ⟨hmoves, h.moves⟩⟩
    rw [List.reverse_cons, leads_append_iff]
    exact ⟨place, h.leads, leads_singleton_iff.mpr ⟨hdirectory, hshort, rfl⟩⟩
  fun_cases Path.pushPart rooted kept part with
  | case1 _ hhere => rwa [follow, if_pos hhere]
  | case2 hhere habove =>
    -- Nothing is kept, so the place is the directory that a command runs in, and there is nothing
    -- above it.
    obtain ⟨⟨⟩, hmoves⟩ := h
    rw [follow, if_neg hhere, if_pos habove]
    exact ⟨.stay [], hmoves⟩
  | case3 hhere => exact hkeep hhere
  | case4 hhere => exact hkeep hhere
  | case5 hhere habove last rest hlast =>
    -- The part that was kept last is taken back: it led one place down.
    obtain ⟨hleads, hmoves⟩ := h
    rw [List.reverse_cons, leads_append_iff] at hleads
    obtain ⟨upper, hupper, hstep⟩ := hleads
    obtain ⟨-, -, rfl⟩ := leads_singleton_iff.mp hstep
    refine ⟨?_, fun p hp => hmoves p (List.mem_cons_of_mem last hp)⟩
    rwa [follow, if_neg hhere, if_pos habove, follow, if_neg (hmoves last List.mem_cons_self),
      if_neg hlast, List.dropLast_concat]
  | case6 _ hhere => exact hkeep hhere

theorem Retraced.foldl_pushPart {tree : FileTree} {kept parts : List Bytes} {place target : Place}
    (rooted : Bool) (hkept : tree.Retraced kept place) (h : tree.Leads place parts target) :
    tree.Retraced (parts.foldl (Path.pushPart rooted) kept) target := by
  induction h generalizing kept with
  | stay => exact hkept
  | go hdirectory hshort _ ih => exact ih (hkept.pushPart rooted hdirectory hshort)

/-- Where a path leads, it leads without its detours. -/
theorem Leads.clean {tree : FileTree} {path : Bytes} {target : Place}
    (h : tree.Leads [] (parts path) target) :
    tree.Leads [] (parts (Path.clean path)) target := by
  have hkept : tree.Leads [] (keptParts path) target :=
    (Retraced.foldl_pushPart (isRooted path) ⟨.stay [], by simp⟩ h).leads
  rcases parts_clean path with hparts | ⟨hnone, hparts⟩
  · rwa [hparts]
  · rw [hnone] at hkept
    cases hkept
    rw [hparts, leads_singleton_iff]
    exact ⟨rfl, by decide, rfl⟩

/-! ## Places of paths -/

theorem locate_eq_ok_iff {tree : FileTree} {path : Bytes} {place : Place} :
    tree.locate path = .ok place ↔
      path ≠ [] ∧ path.length ≤ limit ∧ tree.Leads [] (parts path) place := by
  unfold locate walk
  split
  · simp_all
  · split
    · simp
      omega
    · simp_all [foldlM_step_eq_ok_iff]

/-- A tree that has the directories of another one finds the same places. -/
theorem locate_mono {tree later : FileTree} {path : Bytes} {place : Place}
    (hdirectories : ∀ p, tree.node? p = some .directory → later.node? p = some .directory)
    (h : tree.locate path = .ok place) : later.locate path = .ok place := by
  obtain ⟨hne, hshort, hleads⟩ := locate_eq_ok_iff.mp h
  exact locate_eq_ok_iff.mpr ⟨hne, hshort, hleads.mono hdirectories⟩

/-- A path that leads to a directory at some place. -/
@[mk_iff]
structure DirectoryAt (tree : FileTree) (path : Bytes) (place : Place) : Prop where
  located : tree.locate path = .ok place
  directory : tree.node? place = some .directory

theorem find_eq_directory_iff {tree : FileTree} {path : Bytes} :
    tree.find path = .ok .directory ↔ ∃ place, tree.DirectoryAt path place := by
  simp only [directoryAt_iff]
  unfold find
  split
  · simp [*]
  · rename_i place hplace
    split
    · simp [*]
    · simp [*]
    · split <;> simp [*]

/-- The path of a name in a directory leads to that name in the place of the directory, unless it is
too long. -/
theorem locate_join {tree : FileTree} {directory name : Bytes} {place : Place} (hname : IsName name)
    (hdirectory : tree.DirectoryAt directory place) :
    tree.locate (join directory name) =
      if limit < (join directory name).length then .error .tooLong else .ok (place ++ [name]) := by
  obtain ⟨-, -, hleads⟩ := locate_eq_ok_iff.mp hdirectory.located
  split
  · rename_i hlong
    simp [locate, walk, join_ne_nil directory hname, hlong]
  · rename_i hlong
    refine locate_eq_ok_iff.mpr ⟨join_ne_nil directory hname, Nat.not_lt.mp hlong, Leads.clean ?_⟩
    rw [parts_append_slash, hname.parts_eq, leads_append_iff]
    refine ⟨place, hleads, leads_singleton_iff.mpr ⟨hdirectory.directory, hname.short, ?_⟩⟩
    rw [follow, if_neg hname.ne_here, if_neg hname.ne_above]

/-! ## Growing -/

/-- What is put where no directory was.  The directory that a command runs in is always there, so it
is not touched. -/
theorem node?_put_of_free {tree : FileTree} {place : Place}
    (hfree : tree.node? place ≠ some .directory) (node : Node)
    (p : Place) :
    (tree.put place node).node? p = if p = place then some node else tree.node? p := by
  refine node?_put tree node p ?_
  rintro rfl
  exact hfree rfl

/-- A tree that holds all that another one holds, and no other files. -/
structure Grown (tree later : FileTree) : Prop where
  keeps : ∀ {place node}, tree.node? place = some node → later.node? place = some node
  files : ∀ {place content}, later.node? place = some (.file content) →
    tree.node? place = some (.file content)

namespace Grown

theorem refl (tree : FileTree) : tree.Grown tree := ⟨id, id⟩

theorem trans {tree next later : FileTree} (hnext : tree.Grown next) (hlater : next.Grown later) :
    tree.Grown later :=
  ⟨fun h => hlater.keeps (hnext.keeps h), fun h => hnext.files (hlater.files h)⟩

end Grown

/-- A directory that is put where nothing was grows a tree. -/
theorem grown_put_directory {tree : FileTree} {place : Place} (hnothing : tree.node? place = none) :
    tree.Grown (tree.put place .directory) ∧
      (tree.put place .directory).node? place = some .directory := by
  have hfree : tree.node? place ≠ some .directory := by simp [hnothing]
  have hput := node?_put_of_free hfree .directory
  refine ⟨⟨?_, ?_⟩, by rw [hput, if_pos rfl]⟩
  · intro p node hnode
    have hother : p ≠ place := by
      rintro rfl
      simp [hnothing] at hnode
    rw [hput, if_neg hother, hnode]
  · intro p content hfile
    rw [hput] at hfile
    split at hfile
    · cases hfile
    · exact hfile

/-- Making a directory grows a tree, and the directory is there afterwards. -/
theorem grown_of_makeDirectory {tree made : FileTree} {path : Bytes}
    (h : tree.makeDirectory path = .ok made) :
    tree.Grown made ∧ made.find path = .ok .directory := by
  unfold makeDirectory at h
  split at h
  · cases h
  · rename_i place hplace
    split at h
    · cases h
    · rename_i hnothing
      cases h
      obtain ⟨hgrown, hdirectory⟩ := grown_put_directory hnothing
      have hlocated := locate_mono (fun _ => hgrown.keeps) hplace
      exact ⟨hgrown, find_eq_directory_iff.mpr ⟨place, hlocated, hdirectory⟩⟩

theorem kind_eq_directory_iff {tree : FileTree} {path : Bytes} :
    tree.kind path = .ok .directory ↔ tree.find path = .ok .directory := by
  unfold kind
  split <;> simp [*]

/-! ## Creating files -/

/-- A path that leads to a file or to nothing. -/
def Writable (tree : FileTree) (path : Bytes) : Prop :=
  tree.kind path = .error .missing ∨ tree.kind path = .ok .file

instance (tree : FileTree) (path : Bytes) : Decidable (tree.Writable path) :=
  inferInstanceAs (Decidable (_ ∨ _))

section Join

variable {tree : FileTree} {directory name : Bytes} {place : Place}

/-- A name in a directory can be written to unless it is too long or a directory itself. -/
theorem writable_join_iff (hname : IsName name) (hdirectory : tree.DirectoryAt directory place) :
    tree.Writable (join directory name) ↔
      (join directory name).length ≤ limit ∧ tree.node? (place ++ [name]) ≠ some .directory := by
  unfold Writable kind find
  rw [locate_join hname hdirectory]
  by_cases hlong : limit < (join directory name).length
  · simp [hlong, Nat.not_le.mpr hlong]
  · cases hnode : tree.node? (place ++ [name]) with
    | none => simp [hlong, hnode, Nat.not_lt.mp hlong]
    | some node =>
      cases node with
      | directory => simp [hlong, hnode]
      | file content => simp [hlong, hnode, Nat.not_lt.mp hlong, endsInSlash_join directory hname]

theorem find_join_of_file {content : Bytes} (hname : IsName name)
    (hdirectory : tree.DirectoryAt directory place)
    (hshort : (join directory name).length ≤ limit)
    (hfile : tree.node? (place ++ [name]) = some (.file content)) :
    tree.find (join directory name) = .ok (.file content) := by
  simp [find, locate_join hname hdirectory, Nat.not_lt.mpr hshort, hfile,
    endsInSlash_join directory hname]

/-- Creating a file of some name in a directory puts it there, if it can be written to. -/
theorem createFile_join (hname : IsName name) (hdirectory : tree.DirectoryAt directory place)
    (hwritable : tree.Writable (join directory name)) (content : Bytes) :
    tree.createFile (join directory name) content =
      .ok (tree.put (place ++ [name]) (.file content)) := by
  obtain ⟨hshort, hfree⟩ := (writable_join_iff hname hdirectory).mp hwritable
  simp [createFile, newFilePlace, endsInSlash_join directory hname, locate_join hname hdirectory,
    Nat.not_lt.mpr hshort, hfree]

theorem writable_of_createFile_join {next : FileTree} {content : Bytes} (hname : IsName name)
    (hdirectory : tree.DirectoryAt directory place)
    (h : tree.createFile (join directory name) content = .ok next) :
    tree.Writable (join directory name) := by
  rw [writable_join_iff hname hdirectory]
  simp only [createFile, newFilePlace, endsInSlash_join directory hname,
    locate_join hname hdirectory] at h
  by_cases hlong : limit < (join directory name).length
  · simp [hlong] at h
  · refine ⟨Nat.not_lt.mp hlong, ?_⟩
    intro hnode
    simp [hlong, hnode] at h

/-- A file that is put where no directory was leaves every directory where it is. -/
theorem DirectoryAt.put {target : Place} (hdirectory : tree.DirectoryAt directory place)
    (hfree : tree.node? target ≠ some .directory) (content : Bytes) :
    (tree.put target (.file content)).DirectoryAt directory place := by
  have hkeeps : ∀ p, tree.node? p = some .directory →
      (tree.put target (.file content)).node? p = some .directory := by
    intro p hp
    have hother : p ≠ target := by
      rintro rfl
      exact hfree hp
    rw [node?_put_of_free hfree, if_neg hother, hp]
  exact ⟨locate_mono hkeeps hdirectory.located, hkeeps place hdirectory.directory⟩

end Join

end FileTree

/-! ## Trees as the state of a computation -/

/-- What a computation answers on a tree, and what it leaves of the tree. -/
def FileTree.perform {α : Type} (tree : FileTree) (x : StateM FileTree α) : α × FileTree :=
  x.run tree

section Effects

open FileTree

variable {tree made : FileTree} {path : Bytes}

theorem perform_bind {α β : Type} (tree : FileTree) (x : StateM FileTree α)
    (f : α → StateM FileTree β) :
    tree.perform (x >>= f) = (tree.perform x).2.perform (f (tree.perform x).1) := rfl

theorem perform_pure {α : Type} (tree : FileTree) (a : α) : tree.perform (pure a) = (a, tree) := rfl

theorem perform_kind (tree : FileTree) (path : Bytes) :
    tree.perform (FileStore.kind path) = (tree.kind path, tree) := rfl

theorem perform_openFile (tree : FileTree) (path : Bytes) :
    tree.perform (FileStore.openFile path) = (tree.openFile path, tree) := rfl

theorem perform_makeDirectory (tree : FileTree) (path : Bytes) :
    tree.perform (FileStore.makeDirectory path) =
      match tree.makeDirectory path with
      | .ok made => (.ok (), made)
      | .error fault => (.error fault, tree) := rfl

theorem perform_createFile (tree : FileTree) (path content : Bytes) :
    tree.perform (FileStore.createFile path content) =
      match tree.createFile path content with
      | .ok next => (.ok (), next)
      | .error bad => (.error bad, tree) := rfl

/-- A directory that was ensured is there, in a tree that has grown at most. -/
theorem grown_of_ensureDirectory
    (h : tree.perform (FileStore.ensureDirectory path) = (.ok (), made)) :
    tree.Grown made ∧ made.find path = .ok .directory := by
  rw [FileStore.ensureDirectory, perform_bind, perform_makeDirectory] at h
  cases hmake : tree.makeDirectory path with
  | ok next =>
    simp only [hmake, perform_pure] at h
    obtain ⟨-, rfl⟩ := Prod.mk.inj h
    exact grown_of_makeDirectory hmake
  | error fault =>
    simp only [hmake, perform_bind, perform_kind] at h
    split at h
    · rename_i hkind
      obtain ⟨-, rfl⟩ := Prod.mk.inj h
      exact ⟨.refl tree, kind_eq_directory_iff.mp hkind⟩
    · cases h

/-- Directories made one in the other are there up to the first, in a tree that has grown at
most. -/
theorem grown_of_makeNested {paths : List Bytes}
    (h : tree.perform (FileStore.makeNested paths) = (.ok (), made)) :
    tree.Grown made ∧ ∀ path ∈ paths.head?, made.find path = .ok .directory := by
  induction paths generalizing made with
  | nil =>
    obtain ⟨-, rfl⟩ := Prod.mk.inj h
    exact ⟨.refl tree, by simp⟩
  | cons path above ih =>
    simp only [List.head?_cons, Option.mem_some_iff, forall_eq']
    rw [FileStore.makeNested, perform_bind, perform_kind] at h
    cases hkind : tree.kind path with
    | ok kind =>
      cases kind with
      | file =>
        simp only [hkind] at h
        cases h
      | directory =>
        simp only [hkind] at h
        obtain ⟨-, rfl⟩ := Prod.mk.inj h
        exact ⟨.refl tree, kind_eq_directory_iff.mp hkind⟩
    | error fault =>
      simp only [hkind, perform_bind] at h
      cases habove : tree.perform (FileStore.makeNested above) with
      | mk result next =>
        rw [habove] at h
        cases result with
        | error bad => cases h
        | ok =>
          obtain ⟨hnext, -⟩ := ih habove
          obtain ⟨hmade, hfind⟩ := grown_of_ensureDirectory h
          exact ⟨hnext.trans hmade, hfind⟩

theorem head?_lineage (path : Bytes) : (lineage path).head? = some path := by
  rw [lineage, lineageUpTo]
  split <;> rfl

/-- A directory that was made with those above it is there, in a tree that has grown at most. -/
theorem grown_of_makeDirectories
    (h : tree.perform (FileStore.makeDirectories path) = (.ok (), made)) :
    tree.Grown made ∧ made.find path = .ok .directory := by
  obtain ⟨hgrown, hfirst⟩ := grown_of_makeNested h
  exact ⟨hgrown, hfirst path (head?_lineage path)⟩

end Effects

end TwoPass
