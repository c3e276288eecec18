import Mathlib.Algebra.Order.Ring.Nat
import Mathlib.Data.List.TakeWhile
import TwoPass.Proofs.Assembly.Passes
import TwoPass.Proofs.Source.Operands

set_option autoImplicit false

/-!
# The location counter

The counter is a 32 bit word that statements of any size move on, and that the first START statement
sets.  After any number of statements it stands at the start of the program plus the sizes of the
statements that it has counted since it was set.  One step keeps that up, and keeps the counter
inside the address space, so no addition wraps around and the length of the program is the sum of
its sizes.
-/

namespace TwoPass

/-! ## One step -/

/-- Whether a statement is a START statement. -/
def Statement.isStart (s : Statement) : Bool := s.operation == .start

/-- Whether there is a START statement. -/
def hasStart (ps : List Placed) : Bool := ps.any fun p => p.isStart

namespace Counter

/-- The check in words of 64 bits is the check in numbers. -/
theorem overflows_eq_false_iff {c : Counter} {size : Nat} :
    c.overflows size = false ↔ c.location.toNat + size ≤ addressSpace := by
  have hspace : (UInt64.ofNat addressSpace).toNat = 0x1000000 := rfl
  rw [overflows, decide_eq_false_iff_not, UInt64.lt_iff_toNat_lt, toNat_add_sizeWord, hspace,
    addressSpace]
  omega

/-- The two things that a step can do: the first START statement sets the counter, and every other
statement moves it on by its size, inside the address space. -/
theorem step_cases {c next : Counter} {s : Statement} (h : c.step s = .ok next) :
    (c.begins s = true ∧ ∃ address, s.startAddress = .ok address ∧
      next = ⟨address, address, true⟩) ∨
    (c.begins s = false ∧ ∃ size, s.size = .ok size ∧
      c.location.toNat + size ≤ addressSpace ∧
      next = { c with location := c.location + UInt32.ofNat size }) := by
  unfold Counter.step at h
  split at h
  · rename_i hbegins
    obtain ⟨address, haddress, rfl⟩ := map_eq_ok_iff.mp h
    exact Or.inl ⟨hbegins, address, haddress, rfl⟩
  · rename_i hbegins
    obtain ⟨size, hsize, hadvance⟩ := bind_eq_ok_iff.mp h
    unfold Counter.advance at hadvance
    split at hadvance
    · simp at hadvance
    · rename_i hfits
      rw [Bool.not_eq_true, overflows_eq_false_iff] at hfits
      exact Or.inr ⟨by simpa using hbegins, size, hsize, hfits, (Except.ok.inj hadvance).symm⟩

/-- Inside the address space no addition wraps around. -/
theorem toNat_location_add {location : Address} {size : Nat}
    (h : location.toNat + size ≤ addressSpace) :
    (location + UInt32.ofNat size).toNat = location.toNat + size := by
  have hsize : size < 2 ^ 32 := by
    simp only [addressSpace] at h
    omega
  have hsum : location.toNat + size < 2 ^ 32 := by
    simp only [addressSpace] at h
    omega
  rw [UInt32.toNat_add, UInt32.toNat_ofNat_of_lt' hsize, Nat.mod_eq_of_lt hsum]

/-- No statement ahead sets the counter: the program has begun, or there is no START statement. -/
def Settled (c : Counter) (ps : List Placed) : Prop := c.started = true ∨ hasStart ps = false

/-- A step of a settled counter moves it on, and leaves it settled. -/
theorem Settled.step_cases {c next : Counter} {p : Placed} {rest : List Placed}
    (h : c.Settled (p :: rest)) (hstep : c.step p.toStatement = .ok next) :
    c.addressOf p.toStatement = some c.location ∧
      (∃ size, p.size = .ok size ∧ next.location.toNat = c.location.toNat + size) ∧
      next.start = c.start ∧ next.Settled rest := by
  have hsettled : c.begins p.toStatement = false ∧ c.Settled rest := by
    rcases h with hstarted | hnone
    · exact ⟨by simp [Counter.begins, hstarted], Or.inl hstarted⟩
    · simp only [hasStart, List.any_cons, Bool.or_eq_false_iff, Statement.isStart] at hnone
      exact ⟨by simp [Counter.begins, hnone.1], Or.inr hnone.2⟩
  rcases Counter.step_cases hstep with ⟨hbegins, _⟩ | ⟨hbegins, size, hsize, hfits, rfl⟩
  · rw [hsettled.1] at hbegins
    simp at hbegins
  · exact ⟨by simp [Counter.addressOf, hbegins], ⟨size, hsize, toNat_location_add hfits⟩, rfl,
      hsettled.2⟩

/-! ## Runs of the counter -/

/-- The counter goes over placed statements: each one has the address that the counter gave it. -/
inductive Places : Counter → List Placed → Counter → Prop where
  | nil (c : Counter) : Places c [] c
  | cons {c next last : Counter} {p : Placed} {rest : List Placed} :
      c.step p.toStatement = .ok next → p.address = c.addressOf p.toStatement →
      Places next rest last → Places c (p :: rest) last

/-- A run splits at every statement. -/
theorem Places.split {front back : List Placed} {c last : Counter}
    (h : Places c (front ++ back) last) :
    ∃ middle, Places c front middle ∧ Places middle back last := by
  induction front generalizing c with
  | nil => exact ⟨c, .nil c, h⟩
  | cons p front ih =>
    rw [List.cons_append] at h
    cases h with
    | cons hstep haddress hrest =>
      obtain ⟨middle, hfront, hback⟩ := ih hrest
      exact ⟨middle, .cons hstep haddress hfront, hback⟩

/-- A settled counter is settled at every statement. -/
theorem Places.settled {front back : List Placed} {c middle : Counter} (h : Places c front middle)
    (hsettled : c.Settled (front ++ back)) : c.Settled front ∧ middle.Settled back := by
  refine ⟨?_, ?_⟩
  · rcases hsettled with hstarted | hnone
    · exact Or.inl hstarted
    · simp only [hasStart, List.any_append, Bool.or_eq_false_iff] at hnone
      exact Or.inr hnone.1
  · induction h with
    | nil c => exact hsettled
    | cons hstep _ _ ih =>
      obtain ⟨_, _, _, hnext⟩ := Settled.step_cases hsettled hstep
      exact ih hnext

/-- A run takes the counter where its steps take it. -/
theorem Places.foldlM_step {c last : Counter} {ps : List Placed} (h : Places c ps last) :
    (ps.map Placed.toStatement).foldlM Counter.step c = .ok last := by
  induction h with
  | nil c => rfl
  | cons hstep _ _ ih =>
    rw [List.map_cons, List.foldlM_cons, hstep, ok_bind]
    exact ih

/-- A settled counter keeps the start of the program. -/
theorem Places.start_eq {c last : Counter} {ps : List Placed} (h : Places c ps last)
    (hsettled : c.Settled ps) : last.start = c.start := by
  induction h with
  | nil c => rfl
  | cons hstep _ _ ih =>
    obtain ⟨_, _, hstart, hnext⟩ := hsettled.step_cases hstep
    rw [ih hnext, hstart]

end Counter

/-- Placing statements is a run of the counter over them. -/
theorem Layout.places_of_extend {c : Counter} {statements : List Statement} {layout : Layout}
    (h : Layout.extend c [] statements = .ok layout) :
    Counter.Places c layout.statements layout.counter ∧
      layout.statements.map Placed.toStatement = statements := by
  induction statements generalizing c layout with
  | nil =>
    rw [← Except.ok.inj h]
    exact ⟨.nil c, rfl⟩
  | cons s rest ih =>
    unfold Layout.extend at h
    split at h
    · simp at h
    · rename_i next hstep
      rw [Layout.extend_eq_append] at h
      obtain ⟨tail, htail, rfl⟩ := map_eq_ok_iff.mp h
      obtain ⟨hplaces, hmap⟩ := ih htail
      exact ⟨.cons hstep rfl hplaces, by simp [hmap]⟩

namespace Assembly.Made

variable {settings : Settings} {source : List Statement} {a : Assembly}

/-- The statements of a result are those of its source, and the counter goes over them from the
beginning. -/
theorem exists_places (h : a.Made settings source) :
    ∃ counter : Counter, Counter.Places .initial a.statements counter ∧
      a.statements.map Placed.toStatement = source ∧ a.start = counter.start ∧
      a.length = counter.location - counter.start := by
  obtain ⟨counter, hlayout, hstart, hlength⟩ := h.layout
  obtain ⟨hplaces, hstatements⟩ := Layout.places_of_extend hlayout
  exact ⟨counter, hplaces, hstatements, hstart, hlength⟩

theorem mem_source (h : a.Made settings source) {p : Placed} (hp : p ∈ a.statements) :
    p.toStatement ∈ source := by
  obtain ⟨_, _, hstatements, _⟩ := h.exists_places
  rw [← hstatements]
  exact List.mem_map.mpr ⟨p, hp, rfl⟩

end Assembly.Made

/-! ## What the counter has counted -/

/-- The size of a statement, nothing if it has none. -/
def Statement.extent (s : Statement) : Nat := s.size.toOption.getD 0

/-- The sizes of statements put together. -/
def totalSize (ps : List Placed) : Nat := (ps.map fun p => p.extent).sum

/-- The statements behind the first START statement. -/
def afterStart (ps : List Placed) : List Placed := (ps.dropWhile fun p => !p.isStart).tail

/-- The statements that the counter has counted since it was set. -/
def counted (ps : List Placed) : List Placed := if hasStart ps then afterStart ps else ps

theorem Statement.extent_of_size {s : Statement} {size : Nat} (h : s.size = .ok size) :
    s.extent = size := by
  simp [Statement.extent, h, Except.toOption]

theorem totalSize_append_singleton (ps : List Placed) (p : Placed) :
    totalSize (ps ++ [p]) = totalSize ps + p.extent := by
  simp [totalSize]

/-- Behind the first START statement every further statement is counted. -/
theorem afterStart_append {ps : List Placed} (h : hasStart ps = true) (qs : List Placed) :
    afterStart (ps ++ qs) = afterStart ps ++ qs := by
  induction ps with
  | nil => simp [hasStart] at h
  | cons p ps ih =>
    cases hp : p.isStart with
    | true => simp [afterStart, hp]
    | false =>
      have hrest : hasStart ps = true := by
        simpa [hasStart, hp] using h
      have htail := ih hrest
      simp only [afterStart] at htail ⊢
      simpa [hp] using htail

/-- The first START statement sets the counter, so nothing has been counted behind it yet. -/
theorem afterStart_append_start {ps : List Placed} (h : hasStart ps = false) {p : Placed}
    (hp : p.isStart = true) (qs : List Placed) : afterStart (ps ++ p :: qs) = qs := by
  induction ps with
  | nil => simp [afterStart, hp]
  | cons q ps ih =>
    simp only [hasStart, List.any_cons, Bool.or_eq_false_iff] at h
    have htail := ih h.2
    simp only [afterStart] at htail ⊢
    simpa [h.1] using htail

/-- A statement that does not set the counter is counted behind those counted before. -/
theorem counted_append_singleton {ps : List Placed} {p : Placed}
    (h : (p.isStart && !hasStart ps) = false) :
    hasStart (ps ++ [p]) = hasStart ps ∧ counted (ps ++ [p]) = counted ps ++ [p] := by
  have happend : hasStart (ps ++ [p]) = (hasStart ps || p.isStart) := by simp [hasStart]
  cases hps : hasStart ps with
  | true =>
    have hsome : hasStart (ps ++ [p]) = true := by rw [happend, hps]; rfl
    refine ⟨hsome, ?_⟩
    rw [counted, if_pos hsome, afterStart_append hps, counted, if_pos hps]
  | false =>
    have hp : p.isStart = false := by simpa [hps] using h
    have hnone : hasStart (ps ++ [p]) = false := by rw [happend, hps, hp]; rfl
    exact ⟨hnone, by simp [counted, hnone, hps]⟩

/-- What holds of the counter after it has gone over statements. -/
structure Counter.Counts (c : Counter) (ps : List Placed) : Prop where
  /-- it knows whether the program has begun -/
  started : c.started = hasStart ps
  /-- before the program begins, it counts from zero -/
  origin : hasStart ps = false → c.start = 0
  /-- it stands behind what it has counted -/
  location : c.location.toNat = c.start.toNat + totalSize (counted ps)
  /-- it stays inside the address space -/
  bound : c.location.toNat ≤ addressSpace

theorem Counter.Counts.initial : Counter.Counts .initial [] :=
  { started := rfl, origin := fun _ => rfl, location := rfl, bound := by decide }

/-- The program begins at the first START statement. -/
theorem Counter.Counts.begins_eq {c : Counter} {ps : List Placed} (h : c.Counts ps) (p : Placed) :
    c.begins p.toStatement = (p.isStart && !hasStart ps) := by
  rw [Counter.begins, h.started, Statement.isStart]

/-- One step counts one more statement. -/
theorem Counter.Counts.step {c next : Counter} {ps : List Placed} {p : Placed} (h : c.Counts ps)
    (hstep : c.step p.toStatement = .ok next) : next.Counts (ps ++ [p]) := by
  rcases step_cases hstep with ⟨hbegins, address, haddress, rfl⟩ |
    ⟨hbegins, size, hsize, hfits, rfl⟩
  · rw [h.begins_eq, Bool.and_eq_true, Bool.not_eq_true'] at hbegins
    have hlt := (Statement.startAddress_eq_ok_iff.mp haddress).2.2
    have hsome : hasStart (ps ++ [p]) = true := by simp [hasStart, hbegins.1]
    refine ⟨hsome.symm, fun hnone => ?_, ?_, Nat.le_of_lt hlt⟩
    · rw [hsome] at hnone
      simp at hnone
    · rw [counted, if_pos hsome, afterStart_append_start hbegins.2 hbegins.1]
      rfl
  · rw [h.begins_eq] at hbegins
    obtain ⟨hsame, hcounted⟩ := counted_append_singleton hbegins
    have hlocation := toNat_location_add hfits
    refine ⟨?_, ?_, ?_, ?_⟩
    · rw [hsame]
      exact h.started
    · rw [hsame]
      exact h.origin
    · have htotal := h.location
      rw [hcounted, totalSize_append_singleton, Statement.extent_of_size hsize]
      show (c.location + UInt32.ofNat size).toNat = c.start.toNat + _
      omega
    · show (c.location + UInt32.ofNat size).toNat ≤ addressSpace
      omega

/-- A run counts all of its statements. -/
theorem Counter.Places.counts {c last : Counter} {ps : List Placed} (h : Counter.Places c ps last)
    {seen : List Placed} (hseen : c.Counts seen) : last.Counts (seen ++ ps) := by
  induction h generalizing seen with
  | nil c => simpa using hseen
  | cons hstep _ _ ih =>
    have hrest := ih (hseen.step hstep)
    simpa using hrest

/-! ## Addresses -/

/-- A statement that does not set the counter gets the address where the counter stands. -/
theorem Counter.addressOf_of_not_begins {c : Counter} {s : Statement} (h : c.begins s = false) :
    c.addressOf s = some c.location := by
  simp [Counter.addressOf, h]

/-- A settled counter never goes back. -/
theorem Counter.Places.location_le {c last : Counter} {ps : List Placed}
    (h : Counter.Places c ps last) (hsettled : c.Settled ps) :
    c.location.toNat ≤ last.location.toNat := by
  induction h with
  | nil c => exact Nat.le_refl _
  | cons hstep _ _ ih =>
    obtain ⟨_, ⟨size, _, hlocation⟩, _, hnext⟩ := hsettled.step_cases hstep
    have hle := ih hnext
    omega

/-- A settled counter gives every statement an address between two of its stands. -/
theorem Counter.Places.exists_address {c last : Counter} {ps : List Placed}
    (h : Counter.Places c ps last) (hsettled : c.Settled ps) :
    ∀ p ∈ ps, ∃ address, p.address = some address ∧ c.location ≤ address ∧
      address ≤ last.location := by
  induction h with
  | nil c => simp
  | @cons c next last p rest hstep haddress hrest ih =>
    obtain ⟨hplace, ⟨size, _, hlocation⟩, _, hnext⟩ := hsettled.step_cases hstep
    have hle := hrest.location_le hnext
    have hmoved : c.location ≤ next.location := by
      rw [UInt32.le_iff_toNat_le]
      omega
    intro q hq
    rcases List.mem_cons.mp hq with rfl | hq
    · refine ⟨c.location, haddress.trans hplace, UInt32.le_refl _, ?_⟩
      exact UInt32.le_trans hmoved (UInt32.le_iff_toNat_le.mpr hle)
    · obtain ⟨address, hsome, hlow, hhigh⟩ := ih hnext q hq
      exact ⟨address, hsome, UInt32.le_trans hmoved hlow, hhigh⟩

/-- A settled counter gives addresses that do not decrease. -/
theorem Counter.Places.pairwise_address {c last : Counter} {ps : List Placed}
    (h : Counter.Places c ps last) (hsettled : c.Settled ps) :
    (ps.filterMap fun p => p.address).Pairwise (· ≤ ·) := by
  induction h with
  | nil c => simp
  | @cons c next last p rest hstep haddress hrest ih =>
    obtain ⟨hplace, ⟨size, _, hlocation⟩, _, hnext⟩ := hsettled.step_cases hstep
    rw [List.filterMap_cons_some (haddress.trans hplace), List.pairwise_cons]
    refine ⟨?_, ih hnext⟩
    intro address hmem
    obtain ⟨q, hq, hsome⟩ := List.mem_filterMap.mp hmem
    obtain ⟨other, hother, hlow, _⟩ := hrest.exists_address hnext q hq
    have heq : other = address := Option.some.inj (hother.symm.trans hsome)
    rw [heq, UInt32.le_iff_toNat_le] at hlow
    rw [UInt32.le_iff_toNat_le]
    omega

/-- A program with a START statement has a first one. -/
theorem exists_eq_append_of_hasStart {ps : List Placed} (h : hasStart ps = true) :
    ∃ before p after, ps = before ++ p :: after ∧ p.isStart = true ∧ hasStart before = false := by
  induction ps with
  | nil => simp [hasStart] at h
  | cons q ps ih =>
    cases hq : q.isStart with
    | true => exact ⟨[], q, ps, rfl, hq, rfl⟩
    | false =>
      obtain ⟨before, p, after, rfl, hp, hbefore⟩ := ih (by simpa [hasStart, hq] using h)
      refine ⟨q :: before, p, after, rfl, hp, ?_⟩
      simp only [hasStart] at hbefore
      simp [hasStart, hq, hbefore]

theorem afterStart_of_not_hasStart {ps : List Placed} (h : hasStart ps = false) :
    afterStart ps = [] := by
  have hall : ∀ p ∈ ps, (!p.isStart) = true := by
    intro p hp
    have hnone := List.any_eq_false.mp h p hp
    simpa using hnone
  simp [afterStart, List.dropWhile_eq_nil_iff.mpr hall]

/-! ## The law of the location counter -/

/-- Addresses are sums of sizes: from zero before the first START statement, and from the start of
the program behind it. -/
structure Layout.CountsSizes (layout : Layout) : Prop where
  /-- the program starts at the address that the first START statement has as its operand; that
  statement has no address of its own -/
  start : ∀ before p after, layout.statements = before ++ p :: after →
    p.isStart = true → hasStart before = false →
    p.address = none ∧ Numeral.IsNumeral 16 p.operand ∧
      Numeral.value 16 p.operand = layout.start.toNat ∧ layout.start.toNat < addressSpace
  /-- without a START statement the program starts at zero -/
  origin : hasStart layout.statements = false → layout.start = 0
  /-- every statement but the first START statement has a size, and has as its address the sizes
  before it put together -/
  address : ∀ before p after, layout.statements = before ++ p :: after →
    ¬ (p.isStart = true ∧ hasStart before = false) →
    ∃ address size, p.address = some address ∧ p.size = .ok size ∧
      (hasStart before = false → address.toNat = totalSize before) ∧
      (hasStart before = true →
        address.toNat = layout.start.toNat + totalSize (afterStart before))
  /-- after any number of statements the counter is inside the address space, and from the first
  START statement on not before the start of the program -/
  counter : ∀ before after, layout.statements = before ++ after →
    ∃ c, (before.map Placed.toStatement).foldlM Counter.step .initial = .ok c ∧
      c.location.toNat ≤ addressSpace ∧
      (hasStart before = true → c.start = layout.start ∧ c.start ≤ c.location)
  /-- moving the counter on by the size of a statement does not wrap around -/
  addition : ∀ before p after c size, layout.statements = before ++ p :: after →
    ¬ (p.isStart = true ∧ hasStart before = false) →
    (before.map Placed.toStatement).foldlM Counter.step .initial = .ok c → p.size = .ok size →
    (c.location + UInt32.ofNat size).toNat = c.location.toNat + size
  /-- addresses behind the first START statement are not before the start of the program, and not
  behind the end of the address space -/
  bounds : ∀ p ∈ afterStart layout.statements, ∃ address, p.address = some address ∧
    layout.start ≤ address ∧ address.toNat ≤ addressSpace
  /-- addresses behind the first START statement do not decrease -/
  sorted : ((afterStart layout.statements).filterMap fun p => p.address).Pairwise (· ≤ ·)
  /-- the subtraction that gives the length does not wrap around -/
  subtraction : layout.counter.start ≤ layout.counter.location
  /-- the length is what the counter has counted -/
  length : layout.length.toNat =
    if hasStart layout.statements then totalSize (afterStart layout.statements)
    else totalSize layout.statements

theorem Counter.Counts.start_le {c : Counter} {ps : List Placed} (h : c.Counts ps) :
    c.start ≤ c.location := by
  rw [UInt32.le_iff_toNat_le, h.location]
  omega

/-- A run from the beginning, at one of its statements. -/
theorem Counter.Places.exists_at {last : Counter} {before after : List Placed} {p : Placed}
    (h : Counter.Places .initial (before ++ p :: after) last)
    (hp : ¬ (p.isStart = true ∧ hasStart before = false)) :
    ∃ c size, Counter.Places .initial before c ∧ c.Counts before ∧
      p.address = some c.location ∧ p.size = .ok size ∧ c.location.toNat + size ≤ addressSpace ∧
      (hasStart before = true → last.start = c.start) := by
  obtain ⟨c, hbefore, hrest⟩ := h.split
  have hcounts : c.Counts before := hbefore.counts Counter.Counts.initial
  have hbegins : c.begins p.toStatement = false := by
    rw [hcounts.begins_eq]
    simpa using hp
  have hstart : hasStart before = true → last.start = c.start := by
    intro hsome
    exact hrest.start_eq (Or.inl (by rw [hcounts.started]; exact hsome))
  cases hrest with
  | cons hstep haddress _ =>
    rcases step_cases hstep with ⟨hsets, _⟩ | ⟨_, size, hsize, hfits, _⟩
    · rw [hbegins] at hsets
      simp at hsets
    · rw [addressOf_of_not_begins hbegins] at haddress
      exact ⟨c, size, hbefore, hcounts, haddress, hsize, hfits, hstart⟩

/-- A run from the beginning, at the first START statement: it gives the start of the program, and
from there the counter runs on. -/
theorem Counter.Places.exists_atStart {last : Counter} {before after : List Placed} {p : Placed}
    (h : Counter.Places .initial (before ++ p :: after) last) (hp : p.isStart = true)
    (hbefore : hasStart before = false) :
    p.address = none ∧ p.startAddress = .ok last.start ∧
      ∃ c, Counter.Places c after last ∧ c.Settled after ∧ c.location = last.start := by
  obtain ⟨c, hfront, hrest⟩ := h.split
  have hcounts : c.Counts before := hfront.counts Counter.Counts.initial
  have hbegins : c.begins p.toStatement = true := by
    rw [hcounts.begins_eq, hp, hbefore]
    rfl
  cases hrest with
  | cons hstep haddress hafter =>
    rcases step_cases hstep with ⟨_, address, hstart, rfl⟩ | ⟨hcontinues, _⟩
    · have hlast : last.start = address := hafter.start_eq (Or.inl rfl)
      rw [hlast]
      exact ⟨by simp [haddress, addressOf, hbegins], hstart, _, hafter, Or.inl rfl, rfl⟩
    · rw [hbegins] at hcontinues
      simp at hcontinues

/-- Behind the first START statement the counter runs from the start of the program. -/
theorem Counter.Places.exists_afterStart {last : Counter} {ps : List Placed}
    (h : Counter.Places .initial ps last) (hsome : hasStart ps = true) :
    ∃ c, Counter.Places c (afterStart ps) last ∧ c.Settled (afterStart ps) ∧
      c.location = last.start := by
  obtain ⟨before, p, after, rfl, hp, hbefore⟩ := exists_eq_append_of_hasStart hsome
  rw [afterStart_append_start hbefore hp]
  exact (h.exists_atStart hp hbefore).2.2

/-- A run of the counter over a source gives every statement the sum of the sizes before it. -/
theorem Layout.countsSizes_of_places {layout : Layout}
    (h : Counter.Places .initial layout.statements layout.counter) : layout.CountsSizes := by
  have hcounts : layout.counter.Counts layout.statements := h.counts Counter.Counts.initial
  refine { start := ?_, origin := hcounts.origin, address := ?_, counter := ?_, addition := ?_,
           bounds := ?_, sorted := ?_, subtraction := hcounts.start_le, length := ?_ }
  · intro before p after hsplit hp hbefore
    rw [hsplit] at h
    obtain ⟨haddress, hstart, _⟩ := h.exists_atStart hp hbefore
    exact ⟨haddress, Statement.startAddress_eq_ok_iff.mp hstart⟩
  · intro before p after hsplit hp
    rw [hsplit] at h
    obtain ⟨c, size, _, hc, haddress, hsize, _, hstart⟩ := h.exists_at hp
    refine ⟨c.location, size, haddress, hsize, ?_, ?_⟩
    · intro hnone
      simp [hc.location, hc.origin hnone, counted, hnone]
    · intro hsome
      simp [hc.location, Layout.start, hstart hsome, counted, hsome]
  · intro before after hsplit
    rw [hsplit] at h
    obtain ⟨c, hbefore, hafter⟩ := h.split
    have hc : c.Counts before := hbefore.counts Counter.Counts.initial
    refine ⟨c, hbefore.foldlM_step, hc.bound, fun hsome => ⟨?_, hc.start_le⟩⟩
    exact (hafter.start_eq (Or.inl (by rw [hc.started]; exact hsome))).symm
  · intro before p after c size hsplit hp hrun hsize
    rw [hsplit] at h
    obtain ⟨c', size', hbefore, _, _, hsize', hfits, _⟩ := h.exists_at hp
    have hcounter : c' = c := Except.ok.inj (hbefore.foldlM_step.symm.trans hrun)
    have hsame : size' = size := Except.ok.inj (hsize'.symm.trans hsize)
    rw [← hcounter, ← hsame]
    exact Counter.toNat_location_add hfits
  · intro p hp
    cases hsome : hasStart layout.statements with
    | false =>
      rw [afterStart_of_not_hasStart hsome] at hp
      exact absurd hp List.not_mem_nil
    | true =>
      obtain ⟨c, hafter, hsettled, hlocation⟩ := h.exists_afterStart hsome
      obtain ⟨address, haddress, hlow, hhigh⟩ := hafter.exists_address hsettled p hp
      rw [hlocation] at hlow
      exact ⟨address, haddress, hlow, Nat.le_trans (UInt32.le_iff_toNat_le.mp hhigh) hcounts.bound⟩
  · cases hsome : hasStart layout.statements with
    | false => simp [afterStart_of_not_hasStart hsome]
    | true =>
      obtain ⟨c, hafter, hsettled, _⟩ := h.exists_afterStart hsome
      exact hafter.pairwise_address hsettled
  · rw [Layout.length, UInt32.toNat_sub_of_le _ _ hcounts.start_le, hcounts.location, counted]
    split <;> omega

/-- After a successful first pass, the statements are those of the source and their addresses are
sums of sizes, whatever the source. -/
theorem firstPass_countsSizes {settings : Settings} {table : Opcode.Table} {name : Bytes}
    {source : Input} {first : Intermediate} (h : firstPass settings table name source = .ok first) :
    first.layout.statements.map Placed.toStatement =
      Statement.ofLines table name source.read.lines ∧
    first.layout.CountsSizes := by
  obtain ⟨hlayout, _⟩ := eq_of_firstPass_eq_ok h
  obtain ⟨hplaces, hstatements⟩ := Layout.places_of_extend hlayout
  exact ⟨hstatements, Layout.countsSizes_of_places hplaces⟩

/-- A source with statements before its first START statement, which moves the counter back, and
with a second START statement that only counts as a label. -/
def lateStartSource : Input := .ofBytes (utf8
  "A RESW 5000\nB RESB 1\nP START 20\nC WORD 1\nD START 300\nE BYTE X'F1F'\nEND\nF RESB 2")

theorem firstPass_countsSizes_lateStartSource :
    ∃ first, firstPass .initial .empty [] lateStartSource = .ok first ∧
      first.layout.statements.map Placed.toStatement =
        Statement.ofLines .empty [] lateStartSource.read.lines ∧
      first.layout.CountsSizes ∧ first.layout.start = 0x20 ∧ first.layout.length = 8 ∧
      first.layout.statements.map Placed.address =
        [some 0, some 0x3A98, none, some 0x20, some 0x23, some 0x23, some 0x26, some 0x26] := by
  have hfirst := eq_ok_of_isOk (default : Intermediate)
    (x := firstPass .initial .empty [] lateStartSource) (by decide +kernel)
  obtain ⟨hstatements, hcounts⟩ := firstPass_countsSizes hfirst
  exact ⟨_, hfirst, hstatements, hcounts, by decide +kernel⟩

end TwoPass
