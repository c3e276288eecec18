import Mathlib.Data.Finset.Union
import TwoPass.Proofs.Object.Coverage

set_option autoImplicit false

/-!
# Uncovered addresses in one pass

The addresses that the Text records cover can be counted without keeping any gaps: the records are
clipped to the program, put in the order of their starts, and passed over once with a mark behind
the last address that has been counted.  The order is what makes this right.  Every later record
starts no earlier, so what it has below the mark was counted with an earlier one.  How records with
the same start are ordered does not matter.
-/

namespace TwoPass.Object

namespace Span

/-- The part of a span inside another one. -/
def clip (bounds s : Span) : Span := ⟨max s.low bounds.low, min s.high bounds.high⟩

theorem mem_clip {bounds s : Span} {a : Nat} : a ∈ clip bounds s ↔ a ∈ bounds ∧ a ∈ s := by
  simp only [clip, mem_iff]
  omega

/-- How many addresses spans cover from a mark on, counted in one pass.  The mark moves behind what
is counted. -/
def sweep (mark : Nat) : List Span → Nat
  | [] => 0
  | s :: rest =>
    if max s.low mark < s.high then s.high - max s.low mark + sweep s.high rest else sweep mark rest

/-- The addresses from a mark on that some span covers. -/
def coveredFrom (mark : Nat) (spans : List Span) : Finset Nat :=
  (spans.toFinset.biUnion addresses).filter (mark ≤ ·)

theorem mem_coveredFrom {mark : Nat} {spans : List Span} {a : Nat} :
    a ∈ coveredFrom mark spans ↔ (∃ s ∈ spans, a ∈ s) ∧ mark ≤ a := by
  simp only [coveredFrom, Finset.mem_filter, Finset.mem_biUnion, List.mem_toFinset, mem_addresses]

/-- A span that reaches beyond the mark is counted from there on, and the spans behind it from its
end on. -/
theorem coveredFrom_cons_of_lt {mark : Nat} {s : Span} {rest : List Span}
    (hle : ∀ t ∈ rest, s.low ≤ t.low) (hlt : max s.low mark < s.high) :
    coveredFrom mark (s :: rest) =
      Finset.Ico (max s.low mark) s.high ∪ coveredFrom s.high rest := by
  ext a
  simp only [mem_coveredFrom, Finset.mem_union, Finset.mem_Ico, List.exists_mem_cons_iff, mem_iff]
  constructor
  · rintro ⟨hmem | ⟨t, ht, hmem⟩, hmark⟩
    · left
      omega
    · -- below the end of the first span, a later one has nothing that the first does not have
      have hstart := hle t ht
      by_cases hbelow : a < s.high
      · left
        omega
      · exact Or.inr ⟨⟨t, ht, hmem⟩, by omega⟩
  · rintro (hmem | ⟨hmem, hhigh⟩)
    · exact ⟨Or.inl (by omega), by omega⟩
    · exact ⟨Or.inr hmem, by omega⟩

/-- A span that does not reach beyond the mark adds nothing. -/
theorem coveredFrom_cons_of_le {mark : Nat} {s : Span} {rest : List Span}
    (hle : s.high ≤ max s.low mark) :
    coveredFrom mark (s :: rest) = coveredFrom mark rest := by
  ext a
  simp only [mem_coveredFrom, List.exists_mem_cons_iff, mem_iff]
  constructor
  · rintro ⟨hmem | hmem, hmark⟩
    · omega
    · exact ⟨hmem, hmark⟩
  · rintro ⟨hmem, hmark⟩
    exact ⟨Or.inr hmem, hmark⟩

/-- One pass over spans in the order of their starts counts every address that they cover from the
mark on, and none twice. -/
theorem sweep_eq_card {spans : List Span} (hsorted : spans.Pairwise fun s t => s.low ≤ t.low)
    (mark : Nat) :
    sweep mark spans = (coveredFrom mark spans).card := by
  -- What lies below the mark is left out of the count, so nothing has to be said of the spans that
  -- were passed.
  induction spans generalizing mark with
  | nil => rfl
  | cons s rest ih =>
    obtain ⟨hle, hrest⟩ := List.pairwise_cons.mp hsorted
    rw [sweep]
    split
    · rename_i hlt
      have hdisjoint : Disjoint (Finset.Ico (max s.low mark) s.high) (coveredFrom s.high rest) := by
        rw [Finset.disjoint_left]
        intro a ha hb
        have hhigh := (Finset.mem_Ico.mp ha).2
        have hmark := (mem_coveredFrom.mp hb).2
        omega
      rw [coveredFrom_cons_of_lt hle hlt, Finset.card_union_of_disjoint hdisjoint, Nat.card_Ico,
        ih hrest]
    · rename_i hge
      rw [coveredFrom_cons_of_le (by omega), ih hrest]

/-- One pass over spans that have the addresses of holes inside a span finds all that is not outside
the holes. -/
theorem card_outside_add_sweep {bounds : Span} {holes spans : List Span}
    (hcover : ∀ a, (∃ s ∈ spans, a ∈ s) ↔ a ∈ bounds ∧ ∃ hole ∈ holes, a ∈ hole)
    (hsorted : spans.Pairwise fun s t => s.low ≤ t.low) :
    (bounds.outside holes).card + sweep bounds.low spans = bounds.size := by
  have hcovered : coveredFrom bounds.low spans =
      bounds.addresses.filter fun a => ¬ ∀ hole ∈ holes, a ∉ hole := by
    ext a
    simp only [mem_coveredFrom, hcover, Finset.mem_filter, mem_addresses, not_forall, not_not,
      exists_prop]
    exact ⟨fun h => h.1, fun h => ⟨h, h.1.1⟩⟩
  rw [sweep_eq_card hsorted, hcovered, outside, Finset.card_filter_add_card_filter_not, addresses,
    Nat.card_Ico, size]

end Span

/-! ## Programs -/

namespace Program

/-- The Text records clipped to the program, without those that have no address in it. -/
def clipped (p : Program) : List Span :=
  (p.text.map fun t => p.header.span.clip t.span).filter fun s => s.low < s.high

/-- Clipped, the records have the addresses of the program that they had before. -/
theorem exists_mem_clipped {p : Program} {a : Nat} :
    (∃ s ∈ p.clipped, a ∈ s) ↔ a ∈ p.header.span ∧ ∃ t ∈ p.text, a ∈ t.span := by
  simp only [clipped, List.mem_filter, List.mem_map, decide_eq_true_eq]
  constructor
  · rintro ⟨_, ⟨⟨t, ht, rfl⟩, _⟩, hmem⟩
    obtain ⟨hspan, hrecord⟩ := Span.mem_clip.mp hmem
    exact ⟨hspan, t, ht, hrecord⟩
  · rintro ⟨hspan, t, ht, hrecord⟩
    have hmem := Span.mem_clip.mpr ⟨hspan, hrecord⟩
    exact ⟨_, ⟨⟨t, ht, rfl⟩, Nat.lt_of_le_of_lt hmem.1 hmem.2⟩, hmem⟩

/-- However the clipped records are put in the order of their starts, one pass over them finds what
is not uncovered. -/
theorem uncovered_add_sweep (p : Program) {spans : List Span} (hperm : spans.Perm p.clipped)
    (hsorted : spans.Pairwise fun s t => s.low ≤ t.low) :
    p.uncovered + Span.sweep p.header.start.toNat spans = p.header.length.toNat := by
  have hcover : ∀ a, (∃ s ∈ spans, a ∈ s) ↔
      a ∈ p.header.span ∧ ∃ hole ∈ p.text.map Text.span, a ∈ hole := by
    intro a
    simp only [hperm.mem_iff, exists_mem_clipped, List.mem_map, exists_exists_and_eq_and]
  have hsize : p.header.span.size = p.header.length.toNat := Nat.add_sub_cancel_left _ _
  rw [uncovered_eq_card, ← hsize]
  exact Span.card_outside_add_sweep hcover hsorted

theorem uncovered_le_length (p : Program) : p.uncovered ≤ p.header.length.toNat := by
  have hcard := Finset.card_filter_le p.header.span.addresses
    fun a => ∀ hole ∈ p.text.map Text.span, a ∉ hole
  rw [Span.addresses, Nat.card_Ico] at hcard
  rw [uncovered_eq_card]
  exact hcard.trans_eq (Nat.add_sub_cancel_left _ _)

/-- The order of the Text records does not matter. -/
theorem uncovered_eq_of_perm {p q : Program} (hheader : p.header = q.header)
    (hperm : p.text.Perm q.text) :
    p.uncovered = q.uncovered := by
  have houtside : p.header.span.outside (p.text.map Text.span) =
      q.header.span.outside (q.text.map Text.span) := by
    ext a
    simp only [Span.mem_outside, hheader, List.forall_mem_map, hperm.mem_iff]
  rw [uncovered_eq_card, uncovered_eq_card, houtside]

/-- The uncovered addresses of a program are counted exactly, wherever its Text records lie and in
whatever order they come.  There are never more of them than an address word can say, and one pass
over the clipped records, in any order of their starts, gives the same number. -/
theorem uncovered_exact (p : Program) :
    p.uncovered =
      ((Finset.Ico p.header.start.toNat (p.header.start.toNat + p.header.length.toNat)).filter
      fun a => ∀ t ∈ p.text, ¬ (t.start.toNat ≤ a ∧ a < t.start.toNat + t.size)).card ∧
    p.uncovered ≤ p.header.length.toNat ∧ (UInt32.ofNat p.uncovered).toNat = p.uncovered ∧
    (∀ text : List Text, text.Perm p.text → { p with text := text }.uncovered = p.uncovered) ∧
    ∀ spans : List Span, spans.Perm p.clipped → spans.Pairwise (fun s t => s.low ≤ t.low) →
      p.uncovered + Span.sweep p.header.start.toNat spans = p.header.length.toNat := by
  have hle := p.uncovered_le_length
  have hlt := hle.trans_lt p.header.length.toNat_lt_size
  refine ⟨?_, hle, UInt32.toNat_ofNat_of_lt hlt, fun text hperm => uncovered_eq_of_perm rfl hperm,
    fun spans hperm hsorted => p.uncovered_add_sweep hperm hsorted⟩
  rw [uncovered_eq_card, Span.outside]
  simp only [List.forall_mem_map]
  rfl

/-- A program that goes on behind the last address word, with records that are nested, that are
alike, that are empty, and that lie outside of it in part or altogether. -/
def lastWords : Program where
  header := ⟨utf8 "P", 0xFFFFFFF8, 0x10⟩
  text := [⟨0xFFFFFFFE, [utf8 "0000", utf8 "0000"]⟩, ⟨0xFFFFFFFE, [utf8 "00"]⟩,
    ⟨0xFFFFFFF7, [utf8 "0000"]⟩, ⟨0xFFFFFFFE, [utf8 "0000", utf8 "0000"]⟩, ⟨0, [utf8 "00"]⟩,
    ⟨0xFFFFFFFF, []⟩]
  entry := 0xFFFFFFF8

theorem uncovered_exact_lastWords :
    lastWords.uncovered = 11 ∧ { lastWords with text := lastWords.text.reverse }.uncovered = 11 ∧
      11 + Span.sweep 0xFFFFFFF8 [⟨0xFFFFFFF8, 0xFFFFFFF9⟩, ⟨0xFFFFFFFE, 0xFFFFFFFF⟩,
        ⟨0xFFFFFFFE, 0x100000002⟩, ⟨0xFFFFFFFE, 0x100000002⟩] = 0x10 := by
  obtain ⟨_, _, _, hperm, hsweep⟩ := uncovered_exact lastWords
  have hcount : lastWords.uncovered = 11 := by decide +kernel
  rw [← hcount]
  exact ⟨rfl, hperm _ (List.reverse_perm _), hsweep _ (by decide +kernel) (by decide +kernel)⟩

end Program

end TwoPass.Object
