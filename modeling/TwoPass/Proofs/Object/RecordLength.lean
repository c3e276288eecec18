import TwoPass.Proofs.Object.Cells
import TwoPass.Proofs.Object.Coverage
import TwoPass.Proofs.Object.RoundTrip

set_option autoImplicit false

/-!
# The length that a Text record states and the bytes that it places

The size of a Text record counts the whole bytes of each code on its own, while its bytes are those
of all its codes put together.  Two codes that both end in half a byte have a byte in common that
the size leaves out.  A record therefore places at least as many bytes as it states, and exactly as
many if all its codes are whole; in the same way the uncovered addresses of a program are at least
as many as the positions of its image at which no byte is placed.
-/

namespace TwoPass.Object

/-! ## Codes that end in half a byte -/

/-- The number of codes that end in half a byte. -/
def oddCodes (codes : List Bytes) : Nat := codes.countP (·.length % 2 == 1)

theorem oddCodes_eq_zero_iff {codes : List Bytes} :
    oddCodes codes = 0 ↔ ∀ code ∈ codes, code.length % 2 = 0 := by
  simp [oddCodes]

/-- The size of a Text record leaves out one digit of each code that ends in half a byte. -/
theorem Text.length_flatten_codes (t : Text) :
    t.codes.flatten.length = 2 * t.size + oddCodes t.codes := by
  rw [Text.size_eq_sum]
  unfold oddCodes
  induction t.codes with
  | nil => rfl
  | cons code codes ih =>
    rw [List.flatten_cons, List.length_append, ih, List.map_cons, List.sum_cons, List.countP_cons,
      codeSize]
    simp only [beq_iff_eq]
    split <;> omega

/-- The bytes of a Text record, in terms of the size that it states. -/
theorem Text.Inside.codeSize_flatten_eq {h : Header} {t : Text} (hinside : t.Inside h) :
    2 * codeSize t.codes.flatten = 2 * t.size + oddCodes t.codes := by
  have heven := hinside.whole.2
  have hlength := t.length_flatten_codes
  unfold codeSize
  omega

/-! ## Positions of the image -/

/-- The positions of the image at which a Text record places its bytes. -/
def Text.placed (h : Header) (t : Text) : Span :=
  match t.patch h with
  | .error _ => ⟨0, 0⟩
  | .ok patch => ⟨patch.offset, patch.offset + patch.bytes.length⟩

/-- The positions of the image at which no Text record places a byte. -/
def Program.unplaced (p : Program) : Finset Nat :=
  Span.outside (p.text.map (Text.placed p.header)) ⟨0, p.header.length.toNat⟩

theorem Text.Inside.mem_placed {h : Header} {t : Text} (hinside : t.Inside h) {i : Nat} :
    i ∈ t.placed h ↔
      t.start.toNat ≤ h.start.toNat + i ∧
      h.start.toNat + i < t.start.toNat + codeSize t.codes.flatten := by
  have hstart := hinside.start
  rw [Text.placed, hinside.patch_eq, Span.mem_iff]
  simp only [length_bytesOf]
  omega

theorem Program.mem_unplaced {p : Program} {i : Nat} :
    i ∈ p.unplaced ↔ i < p.header.length.toNat ∧ ∀ t ∈ p.text, i ∉ t.placed p.header := by
  rw [Program.unplaced, Span.mem_outside, Span.mem_iff, List.forall_mem_map]
  simp

theorem Program.mem_outside_span {p : Program} {a : Nat} :
    a ∈ p.header.span.outside (p.text.map Text.span) ↔
      (p.header.start.toNat ≤ a ∧ a < p.header.start.toNat + p.header.length.toNat) ∧
        ∀ t ∈ p.text, ¬ (t.start.toNat ≤ a ∧ a < t.start.toNat + t.size) := by
  rw [Span.mem_outside, List.forall_mem_map]
  rfl

/-- The image holds zero where no byte is placed. -/
theorem Program.getElem?_image_of_mem_unplaced {p : Program} {memory : Memory}
    (h : p.image = .ok memory) {i : Nat} (hi : i ∈ p.unplaced) : memory[i]? = some 0 := by
  have hinside := Program.inside_of_image_eq_ok h
  obtain ⟨hlt, hnone⟩ := Program.mem_unplaced.mp hi
  rw [Program.image_eq_store hinside] at h
  rw [← Except.ok.inj h, getElem?_store_of_ne]
  · simp [hlt]
  · intro c hc heq
    obtain ⟨t, ht, hct⟩ := List.mem_flatMap.mp hc
    have hbounds := bounds_of_mem_cells hct
    have hstart := (hinside t ht).start
    rw [length_bytesOf] at hbounds
    apply hnone t ht
    rw [(hinside t ht).mem_placed]
    omega

/-- A position at which no byte is placed belongs to an uncovered address. -/
theorem Program.card_unplaced_le {p : Program} (hinside : ∀ t ∈ p.text, t.Inside p.header) :
    p.unplaced.card ≤ p.uncovered := by
  rw [Program.uncovered_eq_card]
  refine Finset.card_le_card_of_injOn (p.header.start.toNat + ·) ?_ (by intro i _ j _; simp)
  intro i hi
  obtain ⟨hlt, hnone⟩ := Program.mem_unplaced.mp hi
  show p.header.start.toNat + i ∈ p.header.span.outside (p.text.map Text.span)
  refine Program.mem_outside_span.mpr ⟨by omega, ?_⟩
  intro t ht hcovered
  have hsize := (hinside t ht).codeSize_flatten_eq
  apply hnone t ht
  rw [(hinside t ht).mem_placed]
  omega

/-- If every record places as many bytes as it states, every uncovered address is a position without
one. -/
theorem Program.uncovered_le {p : Program} (hinside : ∀ t ∈ p.text, t.Inside p.header)
    (hwhole : ∀ t ∈ p.text, oddCodes t.codes = 0) : p.uncovered ≤ p.unplaced.card := by
  rw [Program.uncovered_eq_card]
  refine Finset.card_le_card_of_injOn (· - p.header.start.toNat) ?_ ?_
  · intro a ha
    obtain ⟨hbounds, hnone⟩ := Program.mem_outside_span.mp ha
    show a - p.header.start.toNat ∈ p.unplaced
    refine Program.mem_unplaced.mpr ⟨by omega, ?_⟩
    intro t ht hplaced
    have hsize := (hinside t ht).codeSize_flatten_eq
    have hzero := hwhole t ht
    rw [(hinside t ht).mem_placed] at hplaced
    apply hnone t ht
    omega
  · intro a ha b hb heq
    have hbounds := (Program.mem_outside_span.mp ha).1
    have hbounds' := (Program.mem_outside_span.mp hb).1
    simp only at heq
    omega

/-! ## Programs that are read -/

/-- What the lengths that Text records state say about the image. -/
structure Program.Measured (input : Input) (p : Program) (memory : Memory) : Prop where
  /-- a Text record stands on a line whose length field is the size of the record -/
  stated : ∀ t ∈ p.text, ∃ line ∈ input.read.lines, ∃ start size length,
    (dropTrailing Ascii.carriageReturn line).splitOn Ascii.circumflex =
      utf8 "T" :: start :: size :: t.codes ∧
    readNumber .textAddress start = .ok t.start ∧ readNumber .textLength size = .ok length ∧
    length.toNat = t.size
  /-- its bytes are as many, and one more for every two codes that end in half a byte -/
  decoded : ∀ t ∈ p.text, ∃ bytes, decodeHex t.codes.flatten = .ok bytes ∧
    2 * bytes.length = 2 * t.size + oddCodes t.codes ∧
    (bytes.length = t.size ↔ ∀ code ∈ t.codes, code.length % 2 = 0)
  /-- the image has a byte for each address of the program -/
  size : memory.size = p.header.length.toNat
  /-- it holds zero where no record places a byte -/
  blank : ∀ i ∈ p.unplaced, memory[i]? = some 0
  /-- there are at least as many uncovered addresses as positions where no record places a byte -/
  unplaced_le : p.unplaced.card ≤ p.uncovered
  /-- they are the same if no code ends in half a byte -/
  unplaced_eq : (∀ t ∈ p.text, ∀ code ∈ t.codes, code.length % 2 = 0) →
    p.unplaced.card = p.uncovered

/-- For every program that is read and has an image, a Text record places the bytes that its length
field states, and the uncovered addresses are those without a byte, exactly as far as codes are made
of whole bytes. -/
theorem Program.measured_of_read {input : Input} {p : Program} {memory : Memory}
    (hread : Program.read input = .ok p) (himage : p.image = .ok memory) :
    p.Measured input memory := by
  have hinside := Program.inside_of_image_eq_ok himage
  refine {
    stated := ?_, decoded := ?_, size := ?_, blank := ?_, unplaced_le := ?_, unplaced_eq := ?_ }
  · intro t ht
    obtain ⟨line, hline, hstands⟩ := Program.exists_line_of_mem_text hread ht
    obtain ⟨type, start, size, length, hfields, hstart, hlength, hsize⟩ :=
      eq_of_readText_eq_ok hstands.read
    have htype := hstands.type
    rw [hfields, List.headD_cons] at htype
    rw [htype] at hfields
    exact ⟨line, hline, start, size, length, hfields, hstart, hlength, hsize⟩
  · intro t ht
    have hsize := (hinside t ht).codeSize_flatten_eq
    refine ⟨bytesOf t.codes.flatten, decodeHex_eq_ok_iff.mpr (hinside t ht).whole.denotes, ?_, ?_⟩
    · rw [length_bytesOf, hsize]
    · rw [length_bytesOf, ← oddCodes_eq_zero_iff]
      omega
  · rw [Program.image_eq_store hinside] at himage
    rw [← Except.ok.inj himage, size_store, Array.size_replicate]
  · intro i hi
    exact Program.getElem?_image_of_mem_unplaced himage hi
  · exact Program.card_unplaced_le hinside
  · intro hwhole
    have hzero : ∀ t ∈ p.text, oddCodes t.codes = 0 :=
      fun t ht => oddCodes_eq_zero_iff.mpr (hwhole t ht)
    exact Nat.le_antisymm (Program.card_unplaced_le hinside) (Program.uncovered_le hinside hzero)

/-- A text with codes that end in half a byte in one record and a gap before the other. -/
def halvesText : Input :=
  .ofBytes (utf8 "H^P     ^000010^000008\nT^000010^02^F12^3^4A\nT^000015^01^0B\nE^000010\n")

theorem Program.measured_of_read_halvesText :
    ∃ p memory, Program.read halvesText = .ok p ∧ p.image = .ok memory ∧
      memory = #[0xF1, 0x23, 0x4A, 0, 0, 0x0B, 0, 0] ∧ p.Measured halvesText memory := by
  have hread := eq_ok_of_isOk (default : Program) (x := Program.read halvesText) (by decide +kernel)
  generalize hresult : (Program.read halvesText).toOption.getD default = p at hread
  have himage : p.image = .ok #[0xF1, 0x23, 0x4A, 0, 0, 0x0B, 0, 0] := by
    rw [← hresult]
    decide +kernel
  exact ⟨p, _, hread, himage, rfl, Program.measured_of_read hread himage⟩

/-- A text with two codes of half a byte each. -/
def sharedByteText : Input := .ofBytes (utf8 "H^P     ^000000^000002\nT^000000^00^F^1\nE^000000\n")

/-- Its record states no bytes and places one, on an address that counts as uncovered. -/
theorem Program.uncovered_ne_sharedByteText :
    ∃ p memory t bytes, Program.read sharedByteText = .ok p ∧ p.image = .ok memory ∧
      p.text = [t] ∧ decodeHex t.codes.flatten = .ok bytes ∧ bytes.length = 1 ∧ t.size = 0 ∧
      p.uncovered = 2 ∧ p.unplaced.card = 1 := by
  have hread :=
    eq_ok_of_isOk (default : Program) (x := Program.read sharedByteText) (by decide +kernel)
  refine ⟨_, #[0xF1, 0], ⟨0, [utf8 "F", utf8 "1"]⟩, [0xF1], hread, ?_⟩
  decide +kernel

end TwoPass.Object
