import TwoPass.Command.Run
import TwoPass.Proofs.Assembly.Passes
import TwoPass.Proofs.Command.Trees

set_option autoImplicit false

/-!
# Publishing all outputs or none

Before the command that assembles puts anything out it has opened and read both files, checked its
settings and run both passes.  If any of that fails, the tree stays as it was and nothing is
printed, whether a directory is given or not.  Otherwise the same five texts are either printed or
stored in the directory.

Storing them makes the directory first, and what counts is the tree after that: where the way to the
directory leads through a name that an output needs, making the directory takes that name.
-/

namespace TwoPass.Command

open FileTree TwoPass.Path

/-! ## Assembling a file -/

/-- All that comes before publishing succeeds, in the order in which it is done, and yields a
result. -/
def Assembles (tree : FileTree) (source table : Bytes) (split : Int) (strict : Bool)
    (a : Assembly) : Prop :=
  ∃ tableInput opcodes sourceInput settings first,
    tree.openFile table = .ok tableInput ∧
    Opcode.Table.read tableInput = .ok opcodes ∧
    tree.openFile source = .ok sourceInput ∧
    Settings.ofChoices [.textLimit split, .strict strict] = .ok settings ∧
    firstPass settings opcodes source sourceInput = .ok first ∧
    secondPass settings first = .ok a

/-- Assembling a file leaves the tree as it is, and succeeds if everything that comes before
publishing does. -/
theorem perform_assembleFile (tree : FileTree) (source table : Bytes) (split : Int)
    (strict : Bool) :
    ∃ result : Except Fault Assembly,
      tree.perform (assembleFile source table [.textLimit split, .strict strict]) = (result, tree) ∧
      ∀ a, result = .ok a ↔ Assembles tree source table split strict a := by
  unfold Assembles
  simp only [assembleFile, perform_bind, perform_openFile]
  cases htable : tree.openFile table with
  | error bad => exact ⟨_, rfl, by simp⟩
  | ok tableInput =>
    cases hread : Opcode.Table.read tableInput with
    | error fault => exact ⟨_, by simp only [hread]; rfl, by simp [hread]⟩
    | ok opcodes =>
      simp only [hread, perform_bind, perform_openFile]
      cases hsource : tree.openFile source with
      | error bad => exact ⟨_, rfl, by simp⟩
      | ok sourceInput =>
        refine ⟨_, rfl, fun a => ?_⟩
        rw [mapError_eq_ok_iff, assemble_eq_ok_iff]
        simp [hread]

/-! ## Writing files -/

/-- The name of an output's file. -/
def fileName (o : Output) : Bytes := o.name ++ utf8 ".txt"

theorem outputFile_eq (directory : Bytes) (o : Output) :
    outputFile directory o = join directory (fileName o) := rfl

theorem isName_fileName (o : Output) : IsName (fileName o) := by
  cases o <;> constructor <;> decide

theorem fileName_injective {o p : Output} (h : fileName o = fileName p) : o = p := by
  revert h
  cases o <;> cases p <;> decide

theorem mem_all (o : Output) : o ∈ Output.all := by
  cases o <;> decide

/-- Outputs are in their files at a place, and all else is as it was. -/
structure Stored (tree final : FileTree) (place : Place) (content : Output → Bytes)
    (outputs : List Output) :
    Prop where
  written : ∀ o ∈ outputs, final.node? (place ++ [fileName o]) = some (.file (content o))
  others : ∀ p, (∀ o ∈ outputs, p ≠ place ++ [fileName o]) → final.node? p = tree.node? p

section Writing

variable {tree : FileTree} {directory : Bytes} {place : Place} {screen : Screen} {a : Assembly}

theorem writable_outputFile_iff (hdirectory : tree.DirectoryAt directory place) (o : Output) :
    tree.Writable (outputFile directory o) ↔
      (outputFile directory o).length ≤ limit ∧
      tree.node? (place ++ [fileName o]) ≠ some .directory :=
  writable_join_iff (isName_fileName o) hdirectory

theorem createFile_outputFile (hdirectory : tree.DirectoryAt directory place) {o : Output}
    (ho : tree.Writable (outputFile directory o)) (content : Bytes) :
    tree.createFile (outputFile directory o) content =
      .ok (tree.put (place ++ [fileName o]) (.file content)) :=
  createFile_join (isName_fileName o) hdirectory ho content

/-- Storing an output that can be stored goes on with the others. -/
theorem perform_writeOutputs_cons (hdirectory : tree.DirectoryAt directory place) {o : Output}
    (ho : tree.Writable (outputFile directory o)) (rest : List Output) :
    tree.perform (writeOutputs screen directory a (o :: rest)) =
      (tree.put (place ++ [fileName o]) (.file (a.render o))).perform
      (writeOutputs screen directory a rest) := by
  rw [writeOutputs, perform_bind, perform_createFile, createFile_outputFile hdirectory ho]

/-- Storing one output does not change which others can be stored. -/
theorem writable_put_iff (hdirectory : tree.DirectoryAt directory place) {o : Output}
    (ho : tree.Writable (outputFile directory o)) (content : Bytes) (p : Output) :
    (tree.put (place ++ [fileName o]) (.file content)).Writable (outputFile directory p) ↔
      tree.Writable (outputFile directory p) := by
  obtain ⟨-, hfree⟩ := (writable_outputFile_iff hdirectory o).mp ho
  rw [writable_outputFile_iff (hdirectory.put hfree content), writable_outputFile_iff hdirectory,
    node?_put_of_free hfree]
  by_cases hsame : p = o
  · subst hsame
    simp [hfree]
  · have hother : place ++ [fileName p] ≠ place ++ [fileName o] := by
      simpa using fun h => hsame (fileName_injective h)
    rw [if_neg hother]

/-- Outputs that can all be stored are stored one after the other. -/
theorem perform_writeOutputs (screen : Screen) (a : Assembly) {outputs : List Output}
    (hdirectory : tree.DirectoryAt directory place)
    (hwritable : ∀ o ∈ outputs, tree.Writable (outputFile directory o)) :
    ∃ final, tree.perform (writeOutputs screen directory a outputs) = (.printed [], final) ∧
      final.DirectoryAt directory place ∧ Stored tree final place a.render outputs := by
  induction outputs generalizing tree with
  | nil => exact ⟨tree, rfl, hdirectory, by simp, fun _ _ => rfl⟩
  | cons o rest ih =>
    obtain ⟨ho, hrest⟩ := List.forall_mem_cons.mp hwritable
    obtain ⟨-, hfree⟩ := (writable_outputFile_iff hdirectory o).mp ho
    obtain ⟨final, hrun, hfinal, hstored⟩ := ih (hdirectory.put hfree (a.render o))
      fun p hp => (writable_put_iff hdirectory ho (a.render o) p).mpr (hrest p hp)
    refine ⟨final, ?_, hfinal, ?_, ?_⟩
    · rw [perform_writeOutputs_cons hdirectory ho, hrun]
    · intro p hp
      by_cases hlater : p ∈ rest
      · exact hstored.written p hlater
      · obtain rfl : p = o := by simpa [hlater] using hp
        rw [hstored.others, node?_put_of_free hfree, if_pos rfl]
        intro q hq heq
        obtain rfl : p = q := fileName_injective (by simpa using heq)
        exact hlater hq
    · intro p hp
      obtain ⟨hother, hothers⟩ := List.forall_mem_cons.mp hp
      rw [hstored.others p hothers, node?_put_of_free hfree, if_neg hother]

/-- Storing succeeds only if all outputs could be stored to begin with. -/
theorem writable_of_perform_writeOutputs {outputs : List Output}
    (hdirectory : tree.DirectoryAt directory place)
    (h : (tree.perform (writeOutputs screen directory a outputs)).1.exit = 0) :
    ∀ o ∈ outputs, tree.Writable (outputFile directory o) := by
  induction outputs generalizing tree with
  | nil => simp
  | cons o rest ih =>
    have ho : tree.Writable (outputFile directory o) := by
      rw [writeOutputs, perform_bind, perform_createFile] at h
      cases hcreate : tree.createFile (outputFile directory o) (a.render o) with
      | error bad =>
        rw [hcreate] at h
        cases h
      | ok next => exact writable_of_createFile_join (isName_fileName o) hdirectory hcreate
    obtain ⟨-, hfree⟩ := (writable_outputFile_iff hdirectory o).mp ho
    rw [perform_writeOutputs_cons hdirectory ho] at h
    refine List.forall_mem_cons.mpr ⟨ho, fun p hp => ?_⟩
    exact (writable_put_iff hdirectory ho (a.render o) p).mp
      (ih (hdirectory.put hfree (a.render o)) h p hp)

/-- Outputs can be stored in a directory: it can be made, and once it is made, each of their paths
leads to a file or to nothing. -/
def CanStore (tree : FileTree) (directory : Bytes) : Prop :=
  ∃ made, tree.perform (FileStore.makeDirectories directory) = (.ok (), made) ∧
    ∀ o, made.Writable (outputFile directory o)

/-- The outputs are in their files in a directory, and no other file has changed. -/
structure Published (tree final : FileTree) (directory : Bytes) (content : Output → Bytes) :
    Prop where
  stored : ∀ o, final.find (outputFile directory o) = .ok (.file (content o))
  others : ∀ place, (∀ o, final.locate (outputFile directory o) ≠ .ok place) →
    ∀ text, final.node? place = some (.file text) ↔ tree.node? place = some (.file text)

/-- Outputs that can be stored in a directory are stored there. -/
theorem published_of_canStore (h : CanStore tree directory) (screen : Screen) (a : Assembly) :
    ∃ final, tree.perform (writeFiles screen directory a) = (.printed [], final) ∧
      Published tree final directory a.render := by
  obtain ⟨made, hmake, hwritable⟩ := h
  obtain ⟨hgrown, hfind⟩ := grown_of_makeDirectories hmake
  obtain ⟨place, hdirectory⟩ := find_eq_directory_iff.mp hfind
  obtain ⟨final, hrun, hfinal, hstored⟩ :=
    perform_writeOutputs screen a hdirectory fun o (_ : o ∈ Output.all) => hwritable o
  have hshort : ∀ o, (join directory (fileName o)).length ≤ limit := fun o =>
    ((writable_outputFile_iff hdirectory o).mp (hwritable o)).1
  have hlocate : ∀ o, final.locate (outputFile directory o) = .ok (place ++ [fileName o]) := by
    intro o
    rw [outputFile_eq, locate_join (isName_fileName o) hfinal, if_neg (Nat.not_lt.mpr (hshort o))]
  refine ⟨final, ?_, ?_, ?_⟩
  · rw [writeFiles, perform_bind, hmake]
    exact hrun
  · intro o
    exact find_join_of_file (isName_fileName o) hfinal (hshort o) (hstored.written o (mem_all o))
  · intro p hp text
    have hother : final.node? p = made.node? p := by
      refine hstored.others p fun o _ hsame => hp o ?_
      rw [hlocate, hsame]
    rw [hother]
    exact ⟨hgrown.files, hgrown.keeps⟩

/-- Writing files succeeds only where the outputs can be stored. -/
theorem canStore_of_exit (h : (tree.perform (writeFiles screen directory a)).1.exit = 0) :
    CanStore tree directory := by
  rw [writeFiles, perform_bind] at h
  cases hmake : tree.perform (FileStore.makeDirectories directory) with
  | mk result made =>
    rw [hmake] at h
    cases result with
    | error bad => cases h
    | ok =>
      obtain ⟨-, hfind⟩ := grown_of_makeDirectories hmake
      obtain ⟨place, hdirectory⟩ := find_eq_directory_iff.mp hfind
      exact ⟨made, hmake, fun o => writable_of_perform_writeOutputs hdirectory h o (mem_all o)⟩

end Writing

/-! ## The command -/

theorem perform_run {arguments : List Bytes} {source table directory : Bytes} {split : Int}
    {strict : Bool} {extras : Extras}
    (h : Invocation.read arguments = .ok (.assemble source table directory split strict extras))
    (screen : Screen) (tree : FileTree) :
    tree.perform (run screen arguments) =
      tree.perform (runAssemble (screen.only extras) source table directory split strict) := by
  rw [run, h]

/-- If anything that comes before publishing fails, assembling complains of it, whatever the
directory and the screen, and leaves the tree as it is. -/
theorem exists_complaint {tree : FileTree} {source table : Bytes} {split : Int} {strict : Bool}
    (h : ¬ ∃ a, Assembles tree source table split strict a) :
    ∃ fault, ∀ screen directory,
      tree.perform (runAssemble screen source table directory split strict) =
        (⟨1, [], screen.log ++ screen.complaint fault⟩, tree) := by
  obtain ⟨result, hrun, hresult⟩ := perform_assembleFile tree source table split strict
  cases result with
  | error fault =>
    refine ⟨fault, fun screen directory => ?_⟩
    rw [runAssemble, perform_bind, hrun]
    rfl
  | ok a => exact absurd ⟨a, (hresult a).mp rfl⟩ h

theorem perform_runAssemble {tree : FileTree} {source table : Bytes} {split : Int} {strict : Bool}
    {a : Assembly} (h : Assembles tree source table split strict a) (screen : Screen)
    (directory : Bytes) :
    tree.perform (runAssemble screen source table directory split strict) =
      (((tree.perform (publish screen directory a)).1).after (screen.log ++ screen.assembly a),
        (tree.perform (publish screen directory a)).2) := by
  obtain ⟨result, hrun, hresult⟩ := perform_assembleFile tree source table split strict
  obtain rfl := (hresult a).mpr h
  rw [runAssemble, perform_bind, hrun]
  rfl

theorem perform_publish_nil (tree : FileTree) (screen : Screen) (a : Assembly) :
    tree.perform (publish screen [] a) = (.printed (sections a), tree) := rfl

theorem publish_of_ne_nil {directory : Bytes} (h : directory ≠ []) (screen : Screen)
    (a : Assembly) :
    publish screen directory a = (writeFiles screen directory a : StateM FileTree Outcome) := by
  rw [publish, if_neg (by simpa using h)]

/-- What prints the outputs has assembled. -/
theorem exists_assembles_of_exit {tree : FileTree} {source table : Bytes} {split : Int}
    {strict : Bool} (screen : Screen)
    (h : (tree.perform (runAssemble screen source table [] split strict)).1.exit = 0) :
    ∃ a, Assembles tree source table split strict a := by
  by_contra hfails
  obtain ⟨fault, hcomplaint⟩ := exists_complaint hfails
  rw [hcomplaint] at h
  cases h

/-- Publishing is all or nothing, and the same with a directory and without one.  If anything before
it fails, both runs complain of the same fault and change nothing.  Otherwise the run without a
directory prints the outputs under their headings and changes nothing; the run with a directory
succeeds exactly if the outputs can be stored there, and then it prints nothing, stores the same
outputs and changes no other file.  The screen shows the log and the dump that each of the runs is
asked for, and besides them only complaints. -/
theorem run_publishes {plain filed : List Bytes} {source table directory : Bytes} {split : Int}
    {strict : Bool} {extras others : Extras}
    (hplain : Invocation.read plain = .ok (.assemble source table [] split strict extras))
    (hfiled : Invocation.read filed = .ok (.assemble source table directory split strict others))
    (hdirectory : directory ≠ []) (screen : Screen) (tree : FileTree) :
    ((¬ ∃ a, Assembles tree source table split strict a) → ∃ fault,
      tree.perform (run screen plain) =
        (⟨1, [], (screen.only extras).log ++ (screen.only extras).complaint fault⟩, tree) ∧
      tree.perform (run screen filed) =
        (⟨1, [], (screen.only others).log ++ (screen.only others).complaint fault⟩, tree)) ∧
    ∀ a, Assembles tree source table split strict a →
      tree.perform (run screen plain) =
        (⟨0, Output.all.flatMap fun o => utf8 "== " ++ o.name ++ utf8 " ==\n" ++ a.render o,
          (screen.only extras).log ++ (screen.only extras).assembly a⟩, tree) ∧
      ((tree.perform (run screen filed)).1.exit = 0 ↔ CanStore tree directory) ∧
      (CanStore tree directory → ∃ final,
        tree.perform (run screen filed) =
          (⟨0, [], (screen.only others).log ++ (screen.only others).assembly a⟩, final) ∧
        Published tree final directory a.render) := by
  rw [perform_run hplain, perform_run hfiled]
  refine ⟨fun hfails => ?_, fun a ha => ?_⟩
  · obtain ⟨fault, hcomplaint⟩ := exists_complaint hfails
    exact ⟨fault, hcomplaint _ [], hcomplaint _ directory⟩
  · rw [perform_runAssemble ha, perform_runAssemble ha, perform_publish_nil,
      publish_of_ne_nil hdirectory]
    have hstores : CanStore tree directory → ∃ final,
        tree.perform (writeFiles (screen.only others) directory a) = (.printed [], final) ∧
        Published tree final directory a.render :=
      fun hstore => published_of_canStore hstore (screen.only others) a
    refine ⟨?_, ⟨canStore_of_exit, fun hstore => ?_⟩, fun hstore => ?_⟩
    · simp [Outcome.after, Outcome.printed, sections]
    · obtain ⟨final, hrun, -⟩ := hstores hstore
      rw [hrun]
      rfl
    · obtain ⟨final, hrun, hpublished⟩ := hstores hstore
      rw [hrun]
      exact ⟨final, by simp [Outcome.after, Outcome.printed], hpublished⟩

/-- A tree of two files: a source under some name, and an opcode table. -/
def smallTree (source : Bytes) : FileTree :=
  (FileTree.empty.withFile source (utf8 "P START 1000\nA LDA A\nEND\n")).withFile (utf8 "o")
    (utf8 "LDA 00\n")

/-- A screen on which every dump is one word, and so is the log. -/
def wordScreen : Screen where
  assembly _ := utf8 "dump\n"
  program _ := utf8 "dump\n"
  fault := Fault.message
  log := utf8 "log\n"
  words _ := []

/-- A directory may have to be made only to be left again, and an output may take the place of the
source.  The dump that is asked for is shown, and the log is not. -/
theorem run_publishes_smallTree :
    ∃ a final, Assembles (smallTree (utf8 "object.txt")) (utf8 "object.txt") (utf8 "o") 0 false a ∧
      CanStore (smallTree (utf8 "object.txt")) (utf8 "new/..") ∧
      (smallTree (utf8 "object.txt")).perform (run wordScreen
          [utf8 "asm", utf8 "object.txt", utf8 "o", utf8 "--dump", utf8 "-d", utf8 "new/.."]) =
        (⟨0, [], utf8 "dump\n"⟩, final) ∧
      Published (smallTree (utf8 "object.txt")) final (utf8 "new/..") a.render := by
  have hstore : CanStore (smallTree (utf8 "object.txt")) (utf8 "new/..") := by
    refine ⟨((smallTree (utf8 "object.txt")).perform (FileStore.makeDirectories (utf8 "new/.."))).2,
      by decide +kernel, ?_⟩
    have hall : ∀ o ∈ Output.all,
        ((smallTree (utf8 "object.txt")).perform
          (FileStore.makeDirectories (utf8 "new/.."))).2.Writable
          (outputFile (utf8 "new/..") o) := by decide +kernel
    exact fun o => hall o (mem_all o)
  have hplain : Invocation.read [utf8 "asm", utf8 "object.txt", utf8 "o"] =
      .ok (.assemble (utf8 "object.txt") (utf8 "o") [] 0 false ⟨false, false, false⟩) := by
    decide +kernel
  have hfiled : Invocation.read
      [utf8 "asm", utf8 "object.txt", utf8 "o", utf8 "--dump", utf8 "-d", utf8 "new/.."] =
      .ok (.assemble (utf8 "object.txt") (utf8 "o") (utf8 "new/..") 0 false
        ⟨true, false, false⟩) := by
    decide +kernel
  obtain ⟨a, ha⟩ :
      ∃ a, Assembles (smallTree (utf8 "object.txt")) (utf8 "object.txt") (utf8 "o") 0 false a :=
    exists_assembles_of_exit .plain (by decide +kernel)
  obtain ⟨-, -, hpublishes⟩ :=
    (run_publishes hplain hfiled (by decide) wordScreen (smallTree (utf8 "object.txt"))).2 a ha
  obtain ⟨final, hrun, hpublished⟩ := hpublishes hstore
  exact ⟨a, final, ha, hstore, hrun, hpublished⟩

/-- It is not enough that the directory can be made and that nothing is at any of the five paths
before that.  Where the way to the directory leads through the name of an output, making it takes
that name: four outputs are stored without the fifth. -/
theorem not_publishes_smallTree :
    (∃ a, Assembles (smallTree (utf8 "a.asm")) (utf8 "a.asm") (utf8 "o") 0 false a) ∧
    ((smallTree (utf8 "a.asm")).perform
      (FileStore.makeDirectories (utf8 "object.txt/.."))).1 = .ok () ∧
    (∀ o ∈ Output.all,
      (smallTree (utf8 "a.asm")).find (outputFile (utf8 "object.txt/..") o) = .error .missing) ∧
    ((smallTree (utf8 "a.asm")).perform (run .plain
      [utf8 "asm", utf8 "a.asm", utf8 "o", utf8 "-d", utf8 "object.txt/.."])).1.exit = 1 ∧
    ∀ o ∈ Output.all, ((smallTree (utf8 "a.asm")).perform (run .plain
      [utf8 "asm", utf8 "a.asm", utf8 "o", utf8 "-d", utf8 "object.txt/.."])).2.kind
        (outputFile (utf8 "object.txt/..") o) =
          .ok (if o = .object then .directory else .file) := by
  refine ⟨exists_assembles_of_exit .plain (by decide +kernel), ?_⟩
  decide +kernel

end TwoPass.Command
