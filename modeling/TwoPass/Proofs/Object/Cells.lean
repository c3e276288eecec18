import TwoPass.Proofs.Object.Digits
import TwoPass.Proofs.Object.Runs
import TwoPass.Proofs.Outcome

set_option autoImplicit false

/-!
# Cells of memory

Object code says which byte belongs at which address.  That is its meaning whether it comes one
statement at a time or grouped into Text records: codes that follow each other without a gap fill
the same cells together as one by one.  The image of a program is memory with the cells of its Text
records stored in it.
-/

namespace TwoPass.Object

/-- A byte of memory with its address. -/
structure Cell where
  /-- the address -/
  address : Nat
  /-- the byte -/
  byte : UInt8
  deriving DecidableEq, Repr, Inhabited

/-- The cells that bytes fill from an address on. -/
def cells : Nat → Bytes → List Cell
  | _, [] => []
  | address, b :: rest => ⟨address, b⟩ :: cells (address + 1) rest

theorem cells_append (address : Nat) (front back : Bytes) :
    cells address (front ++ back) = cells address front ++ cells (address + front.length) back := by
  induction front generalizing address with
  | nil => rfl
  | cons b front ih =>
    rw [List.cons_append, cells, cells, ih, List.cons_append, List.length_cons]
    congr 3
    omega

theorem mem_cells (address : Nat) {bytes : Bytes} {i : Nat} {b : UInt8} (h : bytes[i]? = some b) :
    ⟨address + i, b⟩ ∈ cells address bytes := by
  induction bytes generalizing address i with
  | nil => simp at h
  | cons first rest ih =>
    rw [cells]
    cases i with
    | zero =>
      rw [List.getElem?_cons_zero, Option.some.injEq] at h
      rw [h]
      exact List.mem_cons_self
    | succ i =>
      rw [List.getElem?_cons_succ] at h
      have hrest := ih (address + 1) h
      rw [show address + 1 + i = address + (i + 1) by omega] at hrest
      exact List.mem_cons_of_mem _ hrest

theorem bounds_of_mem_cells {address : Nat} {bytes : Bytes} {c : Cell}
    (h : c ∈ cells address bytes) : address ≤ c.address ∧ c.address < address + bytes.length := by
  induction bytes generalizing address with
  | nil => simp [cells] at h
  | cons first rest ih =>
    rw [cells] at h
    rw [List.length_cons]
    rcases List.mem_cons.mp h with rfl | h
    · simp only
      omega
    · have hrest := ih h
      omega

theorem pairwise_cells (address : Nat) (bytes : Bytes) :
    (cells address bytes).Pairwise fun c d => c.address < d.address := by
  induction bytes generalizing address with
  | nil => exact List.Pairwise.nil
  | cons first rest ih =>
    rw [cells, List.pairwise_cons]
    refine ⟨?_, ih (address + 1)⟩
    intro c hc
    have hbounds := bounds_of_mem_cells hc
    simp only
    omega

/-! ## Storing cells -/

/-- Memory from the address `base` on with cells stored in it. -/
def store (base : Nat) (memory : Memory) (cs : List Cell) : Memory :=
  cs.foldl (fun memory c => memory.setIfInBounds (c.address - base) c.byte) memory

theorem store_append (base : Nat) (memory : Memory) (front back : List Cell) :
    store base memory (front ++ back) = store base (store base memory front) back :=
  List.foldl_append

@[simp] theorem size_store (base : Nat) (memory : Memory) (cs : List Cell) :
    (store base memory cs).size = memory.size := by
  unfold store
  induction cs generalizing memory with
  | nil => rfl
  | cons c cs ih => simp [ih]

/-- Writing bytes stores the cells that they fill. -/
theorem overwrite_eq_store {base : Nat} (address : Nat) (h : base ≤ address) (memory : Memory)
    (bytes : Bytes) :
    overwrite memory (address - base) bytes = store base memory (cells address bytes) := by
  induction bytes generalizing memory address with
  | nil => rfl
  | cons b rest ih =>
    have hnext := ih (address + 1) (by omega) (memory.setIfInBounds (address - base) b)
    rw [show address + 1 - base = address - base + 1 by omega] at hnext
    rw [overwrite, hnext, cells]
    rfl

/-- Memory stays as it is where no cell is stored. -/
theorem getElem?_store_of_ne {base : Nat} (memory : Memory) {cs : List Cell} {i : Nat}
    (h : ∀ c ∈ cs, c.address - base ≠ i) : (store base memory cs)[i]? = memory[i]? := by
  induction cs generalizing memory with
  | nil => rfl
  | cons c cs ih =>
    have hrest := ih (memory.setIfInBounds (c.address - base) c.byte)
      (fun d hd => h d (List.mem_cons_of_mem c hd))
    have hc := h c List.mem_cons_self
    rw [Array.getElem?_setIfInBounds_ne hc] at hrest
    exact hrest

/-- A stored cell is found again, if no later one takes its place. -/
theorem getElem?_store_of_mem {base : Nat} (memory : Memory) {cs : List Cell} {c : Cell}
    (hsorted : cs.Pairwise fun c d => c.address < d.address) (hbase : ∀ c ∈ cs, base ≤ c.address)
    (hc : c ∈ cs) (hsize : c.address - base < memory.size) :
    (store base memory cs)[c.address - base]? = some c.byte := by
  induction cs generalizing memory with
  | nil => exact absurd hc List.not_mem_nil
  | cons d cs ih =>
    rw [List.pairwise_cons] at hsorted
    rcases List.mem_cons.mp hc with rfl | hc
    · have hlater : ∀ d ∈ cs, d.address - base ≠ c.address - base := by
        intro d hd
        have hlt := hsorted.1 d hd
        have hle := hbase c List.mem_cons_self
        omega
      have hstored := getElem?_store_of_ne (memory.setIfInBounds (c.address - base) c.byte) hlater
      rw [Array.getElem?_setIfInBounds_self_of_lt hsize] at hstored
      exact hstored
    · exact ih (memory.setIfInBounds (d.address - base) d.byte) hsorted.2
        (fun e he => hbase e (List.mem_cons_of_mem d he)) hc (by simpa using hsize)

/-! ## Text records and programs -/

/-- The cells that the code of a statement fills. -/
def Item.cells (item : Item) : List Cell := Object.cells item.address.toNat (bytesOf item.code)

/-- The cells that a Text record fills. -/
def Text.cells (t : Text) : List Cell := Object.cells t.start.toNat (bytesOf t.codes.flatten)

/-- A Text record of whole bytes that lies inside the program. -/
structure Text.Inside (h : Header) (t : Text) : Prop where
  /-- its code is made of bytes -/
  whole : WholeBytes t.codes.flatten
  /-- it does not start before the program -/
  start : h.start.toNat ≤ t.start.toNat
  /-- it does not end behind the program -/
  finish : t.start.toNat + codeSize t.codes.flatten ≤ h.start.toNat + h.length.toNat

/-- The check in machine words is the check in numbers: where the offset is subtracted it does not
wrap around, and the end of the bytes fits a word of 64 bits however many there are. -/
theorem Header.excludes_eq_false_iff {h : Header} {start : Address} {bytes : Bytes} :
    h.excludes start bytes = false ↔
      h.start.toNat ≤ start.toNat ∧
      start.toNat + bytes.length ≤ h.start.toNat + h.length.toNat := by
  have hbefore : start < h.start ↔ start.toNat < h.start.toNat := UInt32.lt_iff_toNat_lt
  rw [excludes, Bool.or_eq_false_iff, decide_eq_false_iff_not, decide_eq_false_iff_not, hbefore,
    Nat.not_lt]
  refine and_congr_right fun hle => ?_
  have hoffset : (start - h.start).toNat = start.toNat - h.start.toNat :=
    UInt32.toNat_sub_of_le _ _ (UInt32.le_iff_toNat_le.mpr hle)
  have hlength := h.length.toNat_lt
  rw [UInt64.lt_iff_toNat_lt, toNat_add_sizeWord, UInt32.toNat_toUInt64, hoffset]
  omega

theorem Text.Inside.patch_eq {h : Header} {t : Text} (hinside : t.Inside h) :
    t.patch h = .ok ⟨t.start.toNat - h.start.toNat, bytesOf t.codes.flatten⟩ := by
  have hdecode := decodeHex_eq_ok_iff.mpr hinside.whole.denotes
  have hwithin : h.excludes t.start (bytesOf t.codes.flatten) = false := by
    rw [Header.excludes_eq_false_iff, length_bytesOf]
    exact ⟨hinside.start, hinside.finish⟩
  have hoffset : (t.start - h.start).toNat = t.start.toNat - h.start.toNat :=
    UInt32.toNat_sub_of_le _ _ (UInt32.le_iff_toNat_le.mpr hinside.start)
  simp [Text.patch, hdecode, hwithin, hoffset]

theorem Text.inside_of_patch_eq_ok {h : Header} {t : Text} {patch : Patch}
    (hpatch : t.patch h = .ok patch) : t.Inside h := by
  unfold Text.patch at hpatch
  split at hpatch
  · simp at hpatch
  · rename_i bytes hdecode
    obtain ⟨hwhole, rfl⟩ := denotes_iff.mp (decodeHex_eq_ok_iff.mp hdecode)
    split at hpatch
    · simp at hpatch
    · rename_i hwithin
      rw [Bool.not_eq_true, Header.excludes_eq_false_iff, length_bytesOf] at hwithin
      exact ⟨hwhole, hwithin.1, hwithin.2⟩

/-- The Text records of a program with an image all lie inside it. -/
theorem Program.inside_of_image_eq_ok {p : Program} {memory : Memory} (h : p.image = .ok memory) :
    ∀ t ∈ p.text, t.Inside p.header := by
  unfold Program.image at h
  split at h
  · simp at h
  · rename_i patches hpatches
    have hinside := (mapM_eq_ok_iff.mp hpatches).imp fun _ _ hpatch =>
      And.intro (Text.inside_of_patch_eq_ok hpatch) hpatch
    exact ((List.forall₂_and_left _ _).mp hinside).1

/-- The image of a program whose Text records all lie inside it. -/
theorem Program.image_eq_store {p : Program} (hinside : ∀ t ∈ p.text, t.Inside p.header) :
    p.image = .ok (store p.header.start.toNat (Array.replicate p.header.length.toNat 0)
      (p.text.flatMap Text.cells)) := by
  have hpatches : p.text.mapM (Text.patch p.header) = .ok (p.text.map fun t =>
      ⟨t.start.toNat - p.header.start.toNat, bytesOf t.codes.flatten⟩) := by
    rw [mapM_eq_ok_iff, List.forall₂_map_right_iff, List.forall₂_same]
    exact fun t ht => (hinside t ht).patch_eq
  have hfold : ∀ (texts : List Text) (memory : Memory), (∀ t ∈ texts, t.Inside p.header) →
      (texts.map fun t => (⟨t.start.toNat - p.header.start.toNat,
        bytesOf t.codes.flatten⟩ : Patch)).foldl Patch.apply memory =
      store p.header.start.toNat memory (texts.flatMap Text.cells) := by
    intro texts
    induction texts with
    | nil => exact fun memory _ => rfl
    | cons t texts ih =>
      intro memory ht
      have hstart := (ht t List.mem_cons_self).start
      rw [List.map_cons, List.foldl_cons, ih _ fun u hu => ht u (List.mem_cons_of_mem t hu),
        Patch.apply, overwrite_eq_store _ hstart, List.flatMap_cons, store_append]
      rfl
  rw [Program.image, hpatches]
  simp only [hfold p.text _ hinside]

/-! ## Runs without gaps -/

/-- Items that follow each other without a gap, from one address up to another. -/
def Contiguous : Nat → List Item → Nat → Prop
  | low, [], high => low = high
  | low, item :: rest, high =>
    item.address.toNat = low ∧ Contiguous (low + codeSize item.code) rest high

theorem Contiguous.high_eq {low high : Nat} {run : List Item} (h : Contiguous low run high) :
    high = low + runSize run := by
  induction run generalizing low with
  | nil => exact h.symm
  | cons first rest ih =>
    have hrest := ih h.2
    simp only [runSize, List.map_cons, List.sum_cons] at hrest ⊢
    omega

/-- A run without gaps is a Text record that starts where the run does. -/
theorem Contiguous.start_ofRun {low high : Nat} {run : List Item} (h : Contiguous low run high)
    (hne : run ≠ []) : (Text.ofRun run).start.toNat = low := by
  cases run with
  | nil => exact absurd rfl hne
  | cons first rest => exact h.1

theorem wholeBytes_flatten {codes : List Bytes} (h : ∀ code ∈ codes, WholeBytes code) :
    WholeBytes codes.flatten := by
  induction codes with
  | nil => exact WholeBytes.nil
  | cons code codes ih =>
    rw [List.flatten_cons]
    exact (h code List.mem_cons_self).append (ih fun c hc => h c (List.mem_cons_of_mem code hc))

/-- Whole codes take as many bytes together as one by one. -/
theorem codeSize_flatten {codes : List Bytes} (h : ∀ code ∈ codes, WholeBytes code) :
    codeSize codes.flatten = (codes.map codeSize).sum := by
  induction codes with
  | nil => rfl
  | cons code codes ih =>
    have hcode := (h code List.mem_cons_self).2
    have hrest := ih fun c hc => h c (List.mem_cons_of_mem code hc)
    rw [List.map_cons, List.sum_cons, ← hrest, List.flatten_cons]
    simp only [codeSize, List.length_append]
    omega

/-- Codes without gaps fill the same cells together as one by one. -/
theorem Contiguous.cells_eq {low high : Nat} {run : List Item} (h : Contiguous low run high)
    (hwhole : ∀ item ∈ run, WholeBytes item.code) :
    Object.cells low (bytesOf (run.map Item.code).flatten) = run.flatMap Item.cells := by
  induction run generalizing low with
  | nil => rfl
  | cons first rest ih =>
    have hfirst := hwhole first List.mem_cons_self
    have hrest := ih h.2 fun item hitem => hwhole item (List.mem_cons_of_mem first hitem)
    rw [List.map_cons, List.flatten_cons, bytesOf_append hfirst.2, cells_append,
      length_bytesOf, hrest, List.flatMap_cons, Item.cells, h.1]

/-- The Text record of a run without gaps fills the cells of the run. -/
theorem Contiguous.cells_ofRun {low high : Nat} {run : List Item} (h : Contiguous low run high)
    (hne : run ≠ []) (hwhole : ∀ item ∈ run, WholeBytes item.code) :
    (Text.ofRun run).cells = run.flatMap Item.cells := by
  rw [Text.cells, h.start_ofRun hne]
  exact h.cells_eq hwhole

end TwoPass.Object
