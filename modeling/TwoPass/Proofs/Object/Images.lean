import Mathlib.Data.List.Induction
import TwoPass.Proofs.LastElement
import TwoPass.Proofs.Object.Cells

set_option autoImplicit false

/-!
# What the image of a program holds

A program has an image just if every Text record is made of whole bytes and lies inside the program.
The image then has one byte for each address of the program, the one that the last record with this
address gives it, and zero where no record has the address.  Otherwise the first record that is at
fault is reported, and bad code before bad bounds.
-/

namespace TwoPass.Object

/-! ## The bytes that records give -/

/-- An address lies where the bytes of a Text record go. -/
def Text.Covers (t : Text) (address : Nat) : Prop :=
  ∃ bytes, Denotes t.codes.flatten bytes ∧ t.start.toNat ≤ address ∧
    address < t.start.toNat + bytes.length

/-- A Text record has a byte for an address. -/
def Text.Gives (t : Text) (address : Nat) (b : UInt8) : Prop :=
  ∃ bytes offset, Denotes t.codes.flatten bytes ∧ bytes[offset]? = some b ∧
    address = t.start.toNat + offset

/-- The byte that Text records describe at an address: that of the last one that covers it, or zero
if none does. -/
def Describes (text : List Text) (address : Nat) (b : UInt8) : Prop :=
  (∃ before t after, text = before ++ t :: after ∧ t.Gives address b ∧
    ∀ u ∈ after, ¬ u.Covers address) ∨
    (∀ t ∈ text, ¬ t.Covers address) ∧ b = 0

theorem Text.covers_iff {t : Text} (hwhole : WholeBytes t.codes.flatten) {address : Nat} :
    t.Covers address ↔
      t.start.toNat ≤ address ∧ address < t.start.toNat + (bytesOf t.codes.flatten).length := by
  constructor
  · rintro ⟨bytes, hdenotes, hbounds⟩
    obtain ⟨_, rfl⟩ := denotes_iff.mp hdenotes
    exact hbounds
  · intro hbounds
    exact ⟨_, hwhole.denotes, hbounds⟩

theorem Text.gives_iff {t : Text} (hwhole : WholeBytes t.codes.flatten) {address : Nat}
    {b : UInt8} :
    t.Gives address b ↔
      t.start.toNat ≤ address ∧ (bytesOf t.codes.flatten)[address - t.start.toNat]? = some b := by
  constructor
  · rintro ⟨bytes, offset, hdenotes, hbyte, rfl⟩
    obtain ⟨_, rfl⟩ := denotes_iff.mp hdenotes
    exact ⟨Nat.le_add_right _ _, by rwa [Nat.add_sub_cancel_left]⟩
  · rintro ⟨hle, hbyte⟩
    exact ⟨_, _, hwhole.denotes, hbyte, by omega⟩

theorem Text.Gives.covers {t : Text} {address : Nat} {b : UInt8} (h : t.Gives address b) :
    t.Covers address := by
  obtain ⟨bytes, offset, hdenotes, hbyte, rfl⟩ := h
  obtain ⟨hlt, _⟩ := List.getElem?_eq_some_iff.mp hbyte
  exact ⟨bytes, hdenotes, Nat.le_add_right _ _, Nat.add_lt_add_left hlt _⟩

theorem describes_iff {text : List Text} {address : Nat} {b : UInt8} :
    Describes text address b ↔
      (∃ t, IsLast (Text.Covers · address) text t ∧ t.Gives address b) ∨
        (∀ t ∈ text, ¬ t.Covers address) ∧ b = 0 := by
  refine or_congr_left ⟨?_, ?_⟩
  · rintro ⟨before, t, after, htext, hgives, hafter⟩
    exact ⟨t, ⟨before, after, htext, hgives.covers, hafter⟩, hgives⟩
  · rintro ⟨t, ⟨before, after, htext, _, hafter⟩, hgives⟩
    exact ⟨before, t, after, htext, hgives, hafter⟩

/-- One more record has the last word on the addresses that it covers, and none on the others. -/
theorem describes_append_singleton {text : List Text} {t : Text} {address : Nat} {b : UInt8} :
    Describes (text ++ [t]) address b ↔
      t.Gives address b ∨ ¬ t.Covers address ∧ Describes text address b := by
  simp only [describes_iff, isLast_append_singleton, List.forall_mem_append,
    List.forall_mem_singleton]
  constructor
  · rintro (⟨u, ⟨_, rfl⟩ | ⟨hcovers, hlast⟩, hgives⟩ | ⟨⟨htext, ht⟩, rfl⟩)
    · exact Or.inl hgives
    · exact Or.inr ⟨hcovers, Or.inl ⟨u, hlast, hgives⟩⟩
    · exact Or.inr ⟨ht, Or.inr ⟨htext, rfl⟩⟩
  · rintro (hgives | ⟨hcovers, ⟨u, hlast, hgives⟩ | ⟨htext, rfl⟩⟩)
    · exact Or.inl ⟨t, Or.inl ⟨hgives.covers, rfl⟩, hgives⟩
    · exact Or.inl ⟨u, Or.inr ⟨hcovers, hlast⟩, hgives⟩
    · exact Or.inr ⟨⟨htext, hcovers⟩, rfl⟩

/-! ## Images -/

/-- Memory is the image that a program describes. -/
structure Program.Describes (p : Program) (memory : Memory) : Prop where
  /-- it has one byte for each address of the program -/
  size : memory.size = p.header.length.toNat
  /-- each byte is the one that the Text records describe -/
  bytes : ∀ offset, offset < p.header.length.toNat → ∀ b,
    memory[offset]? = some b ↔ Object.Describes p.text (p.header.start.toNat + offset) b

/-- Storing a record of whole bytes changes memory where the record covers it. -/
theorem Text.Inside.getElem?_store {h : Header} {t : Text} (hinside : t.Inside h) {memory : Memory}
    (hsize : memory.size = h.length.toNat) {offset : Nat} {b : UInt8} :
    (store h.start.toNat memory t.cells)[offset]? = some b ↔
      t.Gives (h.start.toNat + offset) b ∨
        ¬ t.Covers (h.start.toNat + offset) ∧ memory[offset]? = some b := by
  have hstart := hinside.start
  have hfinish := hinside.finish
  have hlength := length_bytesOf t.codes.flatten
  rw [Text.cells, ← overwrite_eq_store _ hstart, getElem?_overwrite _ _ _ _ (by omega),
    Text.gives_iff hinside.whole, Text.covers_iff hinside.whole]
  split
  · rename_i hcovered
    have hoffset : h.start.toNat + offset - t.start.toNat =
        offset - (t.start.toNat - h.start.toNat) := by omega
    rw [hoffset]
    constructor
    · intro hbyte
      exact Or.inl ⟨by omega, hbyte⟩
    · rintro (⟨_, hbyte⟩ | ⟨houtside, _⟩)
      · exact hbyte
      · exact absurd ⟨by omega, by omega⟩ houtside
  · rename_i houtside
    constructor
    · intro hbyte
      exact Or.inr ⟨fun hcovered => houtside ⟨by omega, by omega⟩, hbyte⟩
    · rintro (⟨hle, hbyte⟩ | ⟨_, hbyte⟩)
      · obtain ⟨hlt, _⟩ := List.getElem?_eq_some_iff.mp hbyte
        exact absurd ⟨by omega, by omega⟩ houtside
      · exact hbyte

/-- Memory with the cells of records stored in it holds what the records describe. -/
theorem getElem?_store_flatMap {h : Header} {text : List Text} (hinside : ∀ t ∈ text, t.Inside h)
    {offset : Nat} (hoffset : offset < h.length.toNat) {b : UInt8} :
    (store h.start.toNat (Array.replicate h.length.toNat 0) (text.flatMap Text.cells))[offset]? =
      some b ↔ Describes text (h.start.toNat + offset) b := by
  -- The induction is from the last record, since it has the last word.
  induction text using List.reverseRecOn generalizing b with
  | nil => simp [store, Describes, hoffset, eq_comm]
  | append_singleton text t ih =>
    obtain ⟨htext, ht⟩ := List.forall_mem_append.mp hinside
    rw [List.flatMap_append, List.flatMap_singleton, store_append,
      (ht t (by simp)).getElem?_store (by simp), describes_append_singleton, ih htext]

namespace Program

variable {p : Program} {memory other : Memory}

/-- A program describes one image at most. -/
theorem Describes.eq (h : p.Describes memory) (h' : p.Describes other) : memory = other := by
  refine Array.ext_getElem? fun offset => ?_
  by_cases hoffset : offset < p.header.length.toNat
  · refine Option.ext fun b => ?_
    rw [h.bytes offset hoffset b, h'.bytes offset hoffset b]
  · have hsize := h.size
    have hsize' := h'.size
    rw [Array.getElem?_eq_none (by omega), Array.getElem?_eq_none (by omega)]

/-- Memory with the records of a program stored in it is the image that the program describes. -/
theorem describes_store (hinside : ∀ t ∈ p.text, t.Inside p.header) :
    p.Describes (store p.header.start.toNat (Array.replicate p.header.length.toNat 0)
      (p.text.flatMap Text.cells)) :=
  ⟨by simp, fun _ hoffset _ => getElem?_store_flatMap hinside hoffset⟩

end Program

/-! ## Faults -/

/-- What is wrong with a Text record of a program, bad code before bad bounds. -/
inductive Text.AtFault (h : Header) (t : Text) : ImageFault → Prop where
  /-- its code is not made of bytes -/
  | badCode {fault : HexFault} :
    BadDigits t.codes.flatten fault → AtFault h t (.badCode t.start fault)
  /-- its code is made of bytes, and they do not lie inside the program -/
  | outOfBounds : WholeBytes t.codes.flatten → ¬ t.Inside h → AtFault h t (.outOfBounds t.start)

theorem Text.inside_iff_patch {h : Header} {t : Text} :
    t.Inside h ↔ ∃ patch, t.patch h = .ok patch :=
  ⟨fun hinside => ⟨_, hinside.patch_eq⟩, fun ⟨_, hpatch⟩ => Text.inside_of_patch_eq_ok hpatch⟩

theorem Text.patch_eq_error_iff {h : Header} {t : Text} {fault : ImageFault} :
    t.patch h = .error fault ↔ t.AtFault h fault := by
  cases hdecode : decodeHex t.codes.flatten with
  | error bad =>
    have hbad := decodeHex_eq_error_iff.mp hdecode
    have hpatch : t.patch h = .error (.badCode t.start bad) := by rw [Text.patch, hdecode]
    rw [hpatch]
    constructor
    · intro heq
      exact Except.error.inj heq ▸ .badCode hbad
    · intro hfault
      cases hfault with
      | badCode hother =>
        obtain rfl := Except.error.inj (hdecode.symm.trans (decodeHex_eq_error_iff.mpr hother))
        rfl
      | outOfBounds hwhole _ => cases hdecode.symm.trans (decodeHex_eq_ok_iff.mpr hwhole.denotes)
  | ok bytes =>
    obtain ⟨hwhole, _⟩ := denotes_iff.mp (decodeHex_eq_ok_iff.mp hdecode)
    constructor
    · intro hpatch
      have hinside : ¬ t.Inside h := by
        intro hinside
        cases hpatch.symm.trans hinside.patch_eq
      rw [Text.patch, hdecode] at hpatch
      simp only at hpatch
      split at hpatch
      · exact Except.error.inj hpatch ▸ .outOfBounds hwhole hinside
      · cases hpatch
    · intro hfault
      cases hfault with
      | badCode hbad => cases hdecode.symm.trans (decodeHex_eq_error_iff.mpr hbad)
      | outOfBounds _ houtside =>
        have hno : ¬ ∃ patch, t.patch h = .ok patch :=
          fun hpatch => houtside (Text.inside_iff_patch.mpr hpatch)
        rw [Text.patch, hdecode] at hno ⊢
        simp only at hno ⊢
        split
        · rfl
        · rename_i hwithin
          rw [if_neg hwithin] at hno
          exact absurd ⟨_, rfl⟩ hno

namespace Program

theorem image_eq_error_iff {p : Program} {fault : ImageFault} :
    p.image = .error fault ↔ ∃ before t after, p.text = before ++ t :: after ∧
      (∀ u ∈ before, u.Inside p.header) ∧ t.AtFault p.header fault := by
  have hpatches : p.image = .error fault ↔ p.text.mapM (Text.patch p.header) = .error fault := by
    unfold image
    cases p.text.mapM (Text.patch p.header) <;> simp
  rw [hpatches, mapM_eq_error_iff]
  simp only [Text.patch_eq_error_iff, Text.inside_iff_patch]

/-- A program has an image just if all its Text records lie inside it, and the image is what they
describe.  Otherwise the first record that does not is reported. -/
theorem image_describes (p : Program) :
    ((∃ memory, p.image = .ok memory) ↔ ∀ t ∈ p.text, t.Inside p.header) ∧
      (∀ memory, p.image = .ok memory ↔ (∀ t ∈ p.text, t.Inside p.header) ∧ p.Describes memory) ∧
      ∀ fault, p.image = .error fault ↔ ∃ before t after, p.text = before ++ t :: after ∧
        (∀ u ∈ before, u.Inside p.header) ∧ t.AtFault p.header fault := by
  refine ⟨⟨?_, ?_⟩, ?_, fun fault => image_eq_error_iff⟩
  · rintro ⟨memory, himage⟩
    exact inside_of_image_eq_ok himage
  · intro hinside
    exact ⟨_, image_eq_store hinside⟩
  · intro memory
    constructor
    · intro himage
      have hinside := inside_of_image_eq_ok himage
      obtain rfl := Except.ok.inj ((image_eq_store hinside).symm.trans himage)
      exact ⟨hinside, describes_store hinside⟩
    · rintro ⟨hinside, hmemory⟩
      rw [image_eq_store hinside, (describes_store hinside).eq hmemory]

end Program

end TwoPass.Object
