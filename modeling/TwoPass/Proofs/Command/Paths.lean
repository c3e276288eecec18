import TwoPass.Command.Path
import TwoPass.Proofs.Text.Words

set_option autoImplicit false

/-!
# The parts of a path without detours

A path is the text of its parts, so what a path without detours keeps can be read back from it.  In
particular the path of a name in a directory keeps that name as its last part, whatever the
directory is.
-/

namespace TwoPass.Path

/-! ## Parts -/

/-- A name that a path can end in: one part, which leads to a place of its own. -/
structure IsName (name : Bytes) : Prop where
  ne_nil : name ≠ []
  undivided : Ascii.slash ∉ name
  ne_here : name ≠ here
  ne_above : name ≠ above
  short : name.length ≤ partLimit

/-- Parts are not empty and hold no slash. -/
theorem ne_nil_of_mem_parts {path part : Bytes} (h : part ∈ parts path) :
    part ≠ [] ∧ Ascii.slash ∉ part := by
  obtain ⟨hsplit, hfull⟩ := List.mem_filter.mp h
  exact ⟨by simpa using hfull, not_mem_of_mem_splitOn hsplit⟩

theorem parts_append_slash (path rest : Bytes) :
    parts (path ++ Ascii.slash :: rest) = parts path ++ parts rest := by
  rw [parts, List.splitOn_append_cons_self, List.filter_append]
  rfl

theorem parts_slash_cons (path : Bytes) : parts (Ascii.slash :: path) = parts path :=
  parts_append_slash [] path

/-- Parts that are put together with slashes can be read back. -/
theorem parts_intercalate {kept : List Bytes} (h : ∀ part ∈ kept, part ≠ [] ∧ Ascii.slash ∉ part) :
    parts ([Ascii.slash].intercalate kept) = kept := by
  by_cases hnone : kept = []
  · subst hnone
    rfl
  · rw [parts, List.splitOn_intercalate Ascii.slash (fun part hpart => (h part hpart).2) hnone,
      List.filter_eq_self]
    intro part hpart
    simpa using (h part hpart).1

theorem IsName.parts_eq {name : Bytes} (h : IsName name) : parts name = [name] := by
  have hread : parts ([Ascii.slash].intercalate [name]) = [name] :=
    parts_intercalate (by simpa using ⟨h.ne_nil, h.undivided⟩)
  rwa [List.intercalate_singleton] at hread

/-! ## Dropping detours -/

/-- Only parts of the path are kept. -/
theorem mem_foldl_pushPart {rooted : Bool} {path kept : List Bytes} {part : Bytes}
    (h : part ∈ path.foldl (pushPart rooted) kept) : part ∈ path ∨ part ∈ kept := by
  induction path generalizing kept with
  | nil => exact .inr h
  | cons next path ih =>
    rcases ih h with hlater | hpushed
    · exact .inl (List.mem_cons_of_mem next hlater)
    · have hpart : part = next ∨ part ∈ kept := by
        revert hpushed
        fun_cases pushPart rooted kept next <;> grind
      rcases hpart with rfl | hkept
      · exact .inl List.mem_cons_self
      · exact .inr hkept

/-- The parts of a path that are left without detours, in order. -/
def keptParts (path : Bytes) : List Bytes :=
  ((parts path).foldl (pushPart (isRooted path)) []).reverse

theorem mem_parts_of_mem_keptParts {path part : Bytes} (h : part ∈ keptParts path) :
    part ∈ parts path := by
  rcases mem_foldl_pushPart (List.mem_reverse.mp h) with hpart | hnone
  · exact hpart
  · exact absurd hnone List.not_mem_nil

/-- A path without detours has the parts that it kept, or stands for the directory itself. -/
theorem parts_clean (path : Bytes) :
    parts (clean path) = keptParts path ∨ keptParts path = [] ∧ parts (clean path) = [here] := by
  have hread : parts ([Ascii.slash].intercalate (keptParts path)) = keptParts path :=
    parts_intercalate fun part hpart => ne_nil_of_mem_parts (mem_parts_of_mem_keptParts hpart)
  rw [clean, ← keptParts]
  split
  · exact .inl (by rw [parts_slash_cons, hread])
  · split
    · rename_i hnone
      exact .inr ⟨List.isEmpty_iff.mp hnone, by decide⟩
    · exact .inl hread

/-! ## Names in directories -/

theorem IsName.pushPart_eq {name : Bytes} (h : IsName name) (rooted : Bool) (kept : List Bytes) :
    pushPart rooted kept name = name :: kept := by
  simp [pushPart, h.ne_here, h.ne_above]

theorem keptParts_append_name (directory : Bytes) {name : Bytes} (hname : IsName name) :
    ∃ kept, keptParts (directory ++ Ascii.slash :: name) = kept ++ [name] := by
  refine ⟨((parts directory).foldl (pushPart (isRooted (directory ++ Ascii.slash :: name)))
    []).reverse, ?_⟩
  rw [keptParts, parts_append_slash, hname.parts_eq, List.foldl_append, List.foldl_cons,
    List.foldl_nil, hname.pushPart_eq, List.reverse_cons]

/-- The path of a name in a directory ends in that name. -/
theorem suffix_join (directory : Bytes) {name : Bytes} (hname : IsName name) :
    name <:+ join directory name := by
  obtain ⟨kept, hkept⟩ := keptParts_append_name directory hname
  have hsuffix : name <:+ [Ascii.slash].intercalate (kept ++ [name]) := by
    clear hkept
    induction kept with
    | nil => simp
    | cons part kept ih =>
      rw [List.cons_append, List.intercalate_cons_of_ne_nil (by simp)]
      exact ih.trans (List.suffix_append _ _)
  rw [join, clean, ← keptParts, hkept]
  split
  · exact hsuffix.trans (List.suffix_cons _ _)
  · rw [if_neg (by simp)]
    exact hsuffix

theorem endsInSlash_join (directory : Bytes) {name : Bytes} (hname : IsName name) :
    endsInSlash (join directory name) = false := by
  obtain ⟨front, hjoin⟩ := suffix_join directory hname
  have hlast : (join directory name).getLast? = some (name.getLast hname.ne_nil) := by
    rw [← hjoin, List.getLast?_append, List.getLast?_eq_some_getLast hname.ne_nil, Option.some_or]
  rw [endsInSlash, hlast]
  have hne : name.getLast hname.ne_nil ≠ Ascii.slash :=
    fun h => hname.undivided (h ▸ List.getLast_mem hname.ne_nil)
  simpa using hne

theorem join_ne_nil (directory : Bytes) {name : Bytes} (hname : IsName name) :
    join directory name ≠ [] :=
  fun h => hname.ne_nil (List.suffix_nil.mp (h ▸ suffix_join directory hname))

end TwoPass.Path
