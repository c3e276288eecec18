import Mathlib.Algebra.Order.Ring.Nat
import Mathlib.Order.Interval.Finset.Nat
import TwoPass.Object.Coverage

set_option autoImplicit false

/-!
# Addresses in no Text record

Cutting a hole out of a span leaves each address outside the hole in exactly one part.  So after the
Text records have been cut out of the span of a program, one after the other, the sizes of the parts
add up to the number of addresses that no record covers.
-/

namespace TwoPass.Object

namespace Span

/-- The addresses of a span. -/
def addresses (s : Span) : Finset Nat := Finset.Ico s.low s.high

@[simp] theorem mem_addresses {s : Span} {a : Nat} : a ∈ s.addresses ↔ a ∈ s := Finset.mem_Ico

/-- The addresses of a span that lie in no hole. -/
def outside (holes : List Span) (s : Span) : Finset Nat :=
  s.addresses.filter fun a => ∀ hole ∈ holes, a ∉ hole

@[simp] theorem mem_outside {holes : List Span} {s : Span} {a : Nat} :
    a ∈ s.outside holes ↔ a ∈ s ∧ ∀ hole ∈ holes, a ∉ hole := by
  rw [outside, Finset.mem_filter, mem_addresses]

theorem card_outside_nil (s : Span) : (s.outside []).card = s.size := by
  have hall : s.outside [] = Finset.Ico s.low s.high := by
    ext a
    simp [mem_iff]
  rw [hall, Nat.card_Ico, size]

/-! ## Cutting -/

/-- The parts that a cut leaves are counted apart: an empty one adds nothing. -/
theorem sum_map_cut {hole s : Span} {f : Span → Nat}
    (hempty : ∀ part : Span, part.high ≤ part.low → f part = 0) :
    ((cut hole s).map f).sum =
      f ⟨s.low, min s.high hole.low⟩ + f ⟨max s.low hole.high, s.high⟩ := by
  have hpart : ∀ part : Span, (([part].filter fun q => q.low < q.high).map f).sum = f part := by
    intro part
    by_cases hlt : part.low < part.high
    · simp [hlt]
    · simp [hlt, hempty part (by omega)]
  rw [cut, ← List.singleton_append, List.filter_append, List.map_append, List.sum_append,
    hpart, hpart]

/-- A cut loses the addresses of the hole and no others, and counts none twice. -/
theorem sum_card_outside_cut {hole : Span} (hle : hole.low ≤ hole.high) (holes : List Span)
    (s : Span) :
    ((cut hole s).map fun part => (part.outside holes).card).sum =
      (s.outside (hole :: holes)).card := by
  have hempty : ∀ part : Span, part.high ≤ part.low → (part.outside holes).card = 0 := by
    intro part hpart
    rw [outside, addresses, Finset.Ico_eq_empty (by omega)]
    rfl
  have hunion : s.outside (hole :: holes) = outside holes ⟨s.low, min s.high hole.low⟩ ∪
      outside holes ⟨max s.low hole.high, s.high⟩ := by
    ext a
    simp only [Finset.mem_union, mem_outside, List.forall_mem_cons, mem_iff, ← or_and_right,
      ← and_assoc]
    refine and_congr_left fun _ => ?_
    omega
  have hdisjoint : Disjoint (outside holes ⟨s.low, min s.high hole.low⟩)
      (outside holes ⟨max s.low hole.high, s.high⟩) := by
    rw [Finset.disjoint_left]
    intro a ha hb
    simp only [mem_outside, mem_iff] at ha hb
    omega
  rw [sum_map_cut hempty, hunion, Finset.card_union_of_disjoint hdisjoint]

/-- After all cuts, what is left are the addresses in no hole. -/
theorem sum_size_foldl_cut {holes : List Span} (hle : ∀ hole ∈ holes, hole.low ≤ hole.high)
    (left : List Span) :
    ((holes.foldl (fun left hole => left.flatMap (cut hole)) left).map size).sum =
      (left.map fun s => (s.outside holes).card).sum := by
  -- The addresses of the holes to come are left out of the count from the start, so a cut changes
  -- the parts and keeps the sum.
  induction holes generalizing left with
  | nil => simp only [List.foldl_nil, card_outside_nil]
  | cons hole holes ih =>
    have hhole := hle hole List.mem_cons_self
    rw [List.foldl_cons, ih fun h hh => hle h (List.mem_cons_of_mem hole hh)]
    simp only [List.flatMap_def, List.map_flatten, List.sum_flatten, List.map_map,
      Function.comp_def, sum_card_outside_cut hhole]

/-- Holes inside a span that have no address in common take away as many addresses as they have. -/
theorem card_outside_add_sum_size {holes : List Span} {s : Span}
    (hapart : holes.Pairwise fun hole other => ∀ a ∈ hole, a ∉ other)
    (hinside : ∀ hole ∈ holes, ∀ a ∈ hole, a ∈ s) :
    (s.outside holes).card + (holes.map size).sum = s.size := by
  induction holes with
  | nil => exact card_outside_nil s
  | cons hole holes ih =>
    rw [List.pairwise_cons] at hapart
    have hrest := ih hapart.2 fun other hother => hinside other (List.mem_cons_of_mem hole hother)
    have hsdiff : s.outside (hole :: holes) = s.outside holes \ hole.addresses := by
      ext a
      simp only [Finset.mem_sdiff, mem_outside, mem_addresses, List.forall_mem_cons]
      tauto
    have hsubset : hole.addresses ⊆ s.outside holes := by
      intro a ha
      rw [mem_addresses] at ha
      exact mem_outside.mpr ⟨hinside hole List.mem_cons_self a ha, fun other hother =>
        hapart.1 other hother a ha⟩
    have hcard : hole.addresses.card = hole.size := Nat.card_Ico _ _
    have hle := Finset.card_le_card hsubset
    rw [hsdiff, Finset.card_sdiff_of_subset hsubset, List.map_cons, List.sum_cons]
    omega

end Span

/-! ## Programs -/

/-- The uncovered addresses of a program are those that no Text record covers, however the records
lie. -/
theorem Program.uncovered_eq_card (p : Program) :
    p.uncovered = (p.header.span.outside (p.text.map Text.span)).card := by
  have hle : ∀ hole ∈ p.text.map Text.span, hole.low ≤ hole.high := by
    intro hole hhole
    obtain ⟨t, _, rfl⟩ := List.mem_map.mp hhole
    exact Nat.le_add_right _ _
  have hsum := Span.sum_size_foldl_cut hle [p.header.span]
  rw [List.foldl_map, List.map_singleton, List.sum_singleton] at hsum
  rw [← hsum, uncovered, ← List.foldr_map, List.sum]
  rfl

theorem Program.uncovered_eq_zero_iff {p : Program} :
    p.uncovered = 0 ↔ ∀ a ∈ p.header.span, ∃ t ∈ p.text, a ∈ t.span := by
  rw [Program.uncovered_eq_card, Finset.card_eq_zero, Finset.eq_empty_iff_forall_notMem]
  simp only [Span.mem_outside, List.forall_mem_map, not_and, not_forall, not_not, exists_prop]

/-- Records inside a program that have no address in common cover as many addresses as they have
bytes. -/
theorem Program.uncovered_add_sum_size {p : Program}
    (hapart : p.text.Pairwise fun t u => ∀ a ∈ t.span, a ∉ u.span)
    (hinside : ∀ t ∈ p.text, ∀ a ∈ t.span, a ∈ p.header.span) :
    p.uncovered + (p.text.map Text.size).sum = p.header.length.toNat := by
  have hsum := Span.card_outside_add_sum_size (List.pairwise_map.mpr hapart)
    (List.forall_mem_map.mpr hinside)
  have hsize : ∀ t : Text, t.span.size = t.size := fun t => Nat.add_sub_cancel_left _ _
  have hlength : p.header.span.size = p.header.length.toNat := Nat.add_sub_cancel_left _ _
  rw [List.map_map, Function.comp_def] at hsum
  simpa only [hsize, hlength, Program.uncovered_eq_card] using hsum

end TwoPass.Object
