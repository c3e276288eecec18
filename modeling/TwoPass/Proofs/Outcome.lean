import Mathlib.Data.List.Forall2

set_option autoImplicit false

/-!
# Computations that may fail

What the success of a composed computation says about its parts.  Later proofs take composed
computations apart with these lemmas and never open the monad.
-/

namespace TwoPass

variable {ε δ α β : Type}

/-- A computation that is seen to succeed has a result. -/
theorem eq_ok_of_isOk {x : Except ε α} (fallback : α) (h : x.isOk = true) :
    x = .ok (x.toOption.getD fallback) := by
  cases x with
  | error e => simp [Except.isOk, Except.toBool] at h
  | ok a => rfl

/-- A computation behind one that succeeds. -/
theorem ok_bind (a : α) (f : α → Except ε β) : (Except.ok a >>= f) = f a := rfl

/-- Two computations in a row succeed if both do. -/
theorem bind_eq_ok_iff {x : Except ε α} {f : α → Except ε β} {b : β} :
    x >>= f = .ok b ↔ ∃ a, x = .ok a ∧ f a = .ok b := by
  cases x with
  | error e => simp [bind, Except.bind]
  | ok a => simp [bind, Except.bind]

theorem map_eq_ok_iff {x : Except ε α} {f : α → β} {b : β} :
    x.map f = .ok b ↔ ∃ a, x = .ok a ∧ f a = b := by
  cases x with
  | error e => simp [Except.map]
  | ok a => simp [Except.map]

theorem map_eq_error_iff {x : Except ε α} {f : α → β} {e : ε} :
    x.map f = .error e ↔ x = .error e := by
  cases x with
  | error e' => simp [Except.map]
  | ok a => simp [Except.map]

/-- Another wording of the fault does not change success. -/
theorem mapError_eq_ok_iff {x : Except ε α} {f : ε → δ} {a : α} :
    x.mapError f = .ok a ↔ x = .ok a := by
  cases x with
  | error e => simp [Except.mapError]
  | ok a => simp [Except.mapError]

/-- Computing with every element of a list succeeds if it does with each of them. -/
theorem mapM_eq_ok_iff {f : α → Except ε β} {xs : List α} {ys : List β} :
    xs.mapM f = .ok ys ↔ List.Forall₂ (fun x y => f x = .ok y) xs ys := by
  induction xs generalizing ys with
  | nil =>
    rw [List.mapM_nil, List.forall₂_nil_left_iff]
    exact ⟨fun h => (Except.ok.inj h).symm, fun h => h ▸ rfl⟩
  | cons x xs ih =>
    rw [List.mapM_cons, bind_eq_ok_iff]
    constructor
    · rintro ⟨y, hy, h⟩
      obtain ⟨rest, hrest, hys⟩ := bind_eq_ok_iff.mp h
      have hcons : y :: rest = ys := Except.ok.inj hys
      rw [← hcons]
      exact .cons hy (ih.mp hrest)
    · intro h
      cases h with
      | cons hy hrest => exact ⟨_, hy, bind_eq_ok_iff.mpr ⟨_, ih.mpr hrest, rfl⟩⟩

/-- Computing with every element of a list fails with the fault of the first one that it fails
with. -/
theorem mapM_eq_error_iff {f : α → Except ε β} {xs : List α} {e : ε} :
    xs.mapM f = .error e ↔
      ∃ before x after, xs = before ++ x :: after ∧ (∀ y ∈ before, ∃ b, f y = .ok b) ∧
        f x = .error e := by
  induction xs with
  | nil =>
    rw [List.mapM_nil]
    exact ⟨fun h => (nomatch h), fun ⟨before, x, after, heq, _⟩ => by simp at heq⟩
  | cons x xs ih =>
    have hcons : (x :: xs).mapM f = .error e ↔
        f x = .error e ∨ (∃ b, f x = .ok b) ∧ xs.mapM f = .error e := by
      rw [List.mapM_cons]
      cases f x <;> cases xs.mapM f <;> simp [bind, Except.bind, pure, Except.pure]
    rw [hcons, ih]
    constructor
    · rintro (hx | ⟨hx, before, y, after, rfl, hbefore, hy⟩)
      · exact ⟨[], x, xs, rfl, by simp, hx⟩
      · exact ⟨x :: before, y, after, rfl, List.forall_mem_cons.mpr ⟨hx, hbefore⟩, hy⟩
    · rintro ⟨before, y, after, heq, hbefore, hy⟩
      cases before with
      | nil =>
        obtain ⟨rfl, _⟩ := List.cons.inj heq
        exact Or.inl hy
      | cons first before =>
        obtain ⟨rfl, rfl⟩ := List.cons.inj heq
        obtain ⟨hx, hrest⟩ := List.forall_mem_cons.mp hbefore
        exact Or.inr ⟨hx, before, y, after, rfl, hrest, hy⟩

/-- What every step of a computation along a list keeps, the whole computation keeps; a step may use
that its element is one of the list. -/
theorem foldlM_invariant_of_mem {f : β → α → Except ε β} (P : β → Prop) {xs : List α}
    (hstep : ∀ b, ∀ a ∈ xs, ∀ c, P b → f b a = .ok c → P c) {b c : β} (hb : P b)
    (h : xs.foldlM f b = .ok c) : P c := by
  induction xs generalizing b with
  | nil =>
    have hbc : b = c := Except.ok.inj h
    rw [← hbc]
    exact hb
  | cons x xs ih =>
    rw [List.foldlM_cons] at h
    obtain ⟨next, hnext, hrest⟩ := bind_eq_ok_iff.mp h
    have hfirst := hstep b x List.mem_cons_self next hb hnext
    exact ih (fun b a ha => hstep b a (List.mem_cons_of_mem x ha)) hfirst hrest

theorem foldlM_invariant {f : β → α → Except ε β} (P : β → Prop)
    (hstep : ∀ b a c, P b → f b a = .ok c → P c) {xs : List α} {b c : β} (hb : P b)
    (h : xs.foldlM f b = .ok c) : P c :=
  foldlM_invariant_of_mem P (fun b a _ => hstep b a) hb h

end TwoPass
