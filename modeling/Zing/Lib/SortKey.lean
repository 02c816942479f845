import Mathlib.Tactic.Tauto

set_option autoImplicit false

/-! # Texts that sort

A text that is put together from fields of fixed widths sorts as the fields do, the first field
first. `Sorts P before same n f` says that the texts `f x` of `n` characters are in the
lexicographic order exactly as `before` says, for all `x` with `P`; the rules put such texts
together, and `before` is then the lexicographic order of the fields.
-/

namespace Zing.Lib

variable {σ τ α : Type} [LT α]

/-- Behind parts of the same length the rest decides only if the parts are equal. -/
theorem append_lt_append_iff {xs ys zs ws : List α} (h : xs.length = ys.length) :
    xs ++ zs < ys ++ ws ↔ xs < ys ∨ xs = ys ∧ zs < ws := by
  induction xs generalizing ys with
  | nil =>
      cases ys with
      | nil => simp
      | cons b ys => cases h
  | cons a xs ih =>
      cases ys with
      | nil => cases h
      | cons b ys =>
          have htail := ih (Nat.succ.inj h)
          rw [List.cons_append, List.cons_append, List.cons_lt_cons_iff, List.cons_lt_cons_iff,
            htail, List.cons.injEq]
          tauto

/-- The texts `f x` have `n` characters; they compare as `before` and `same` say. -/
structure Sorts (P : τ → Prop) (before same : τ → τ → Prop) (n : Nat) (f : τ → List α) : Prop where
  length : ∀ x, P x → (f x).length = n
  lt_iff : ∀ x y, P x → P y → (f x < f y ↔ before x y)
  eq_iff : ∀ x y, P x → P y → (f x = f y ↔ same x y)

namespace Sorts

variable {P Q : τ → Prop} {before before' same same' : τ → τ → Prop} {n m : Nat}
  {f g : τ → List α}

/-- A separator. -/
theorem const (c : List α) (hc : ¬ c < c) :
    Sorts P (fun _ _ => False) (fun _ _ => True) c.length fun _ => c where
  length := fun _ _ => rfl
  lt_iff := fun _ _ _ _ => iff_of_false hc id
  eq_iff := fun _ _ _ _ => iff_of_true rfl trivial

/-- The second text decides where the first ones are equal. -/
theorem append (hf : Sorts P before same n f) (hg : Sorts P before' same' m g) :
    Sorts P (fun x y => before x y ∨ same x y ∧ before' x y) (fun x y => same x y ∧ same' x y)
      (n + m) fun x => f x ++ g x where
  length := by
    intro x hx
    rw [List.length_append, hf.length x hx, hg.length x hx]
  lt_iff := by
    intro x y hx hy
    rw [append_lt_append_iff ((hf.length x hx).trans (hf.length y hy).symm), hf.lt_iff x y hx hy,
      hf.eq_iff x y hx hy, hg.lt_iff x y hx hy]
  eq_iff := by
    intro x y hx hy
    rw [← hf.eq_iff x y hx hy, ← hg.eq_iff x y hx hy]
    constructor
    · intro heq
      exact List.append_inj heq ((hf.length x hx).trans (hf.length y hy).symm)
    · rintro ⟨hfirst, hsecond⟩
      rw [hfirst, hsecond]

/-- Another name for the order of the fields. -/
theorem congr (h : Sorts P before same n f)
    (hb : ∀ x y, P x → P y → (before x y ↔ before' x y))
    (hs : ∀ x y, P x → P y → (same x y ↔ same' x y)) : Sorts P before' same' n f where
  length := h.length
  lt_iff := fun x y hx hy => (h.lt_iff x y hx hy).trans (hb x y hx hy)
  eq_iff := fun x y hx hy => (h.eq_iff x y hx hy).trans (hs x y hx hy)

theorem congr_text (h : Sorts P before same n f) (hg : ∀ x, P x → g x = f x) :
    Sorts P before same n g where
  length := by
    intro x hx
    rw [hg x hx, h.length x hx]
  lt_iff := by
    intro x y hx hy
    rw [hg x hx, hg y hy, h.lt_iff x y hx hy]
  eq_iff := by
    intro x y hx hy
    rw [hg x hx, hg y hy, h.eq_iff x y hx hy]

/-- The text of a part of the record. -/
theorem comap (h : Sorts P before same n f) {R : σ → Prop} (k : σ → τ) (hk : ∀ x, R x → P (k x)) :
    Sorts R (fun x y => before (k x) (k y)) (fun x y => same (k x) (k y)) n fun x => f (k x) where
  length := fun x hx => h.length _ (hk x hx)
  lt_iff := fun x y hx hy => h.lt_iff _ _ (hk x hx) (hk y hy)
  eq_iff := fun x y hx hy => h.eq_iff _ _ (hk x hx) (hk y hy)

/-- What stands behind texts that differ does not matter. -/
theorem lt_append (h : Sorts P before same n f) {x y : τ} (hx : P x) (hy : P y)
    (hlt : before x y) (zs ws : List α) : f x ++ zs < f y ++ ws := by
  rw [append_lt_append_iff ((h.length x hx).trans (h.length y hy).symm)]
  exact Or.inl ((h.lt_iff x y hx hy).mpr hlt)

end Sorts

end Zing.Lib
