set_option autoImplicit false

/-! # Assertions in the `Except` monad

A function that contains assertions returns `Except ε α`, where `ε` names its assertions.
`check c e` is the statement that fails with `e` unless `c` holds. The lemmas below take a
computation apart at a `bind`. `Ends I E x` says how the computation `x` may end, in a value
or in a failure, and its rules go through the statements of a computation from the first to
the last.
-/

namespace Zing.Lib

variable {ε ε' α β : Type} {I J : α → Prop} {E : ε → Prop}

/-- Assert `c`: go on if it holds, fail with `e` otherwise. -/
def check (c : Prop) [Decidable c] (e : ε) : Except ε Unit := if c then .ok () else .error e

theorem check_ok {c : Prop} [Decidable c] {e : ε} (h : c) : check c e = .ok () := if_pos h

theorem check_error {c : Prop} [Decidable c] {e : ε} (h : ¬ c) : check c e = .error e :=
  if_neg h

theorem check_eq_ok {c : Prop} [Decidable c] {e : ε} {u : Unit} :
    check c e = .ok u ↔ c := by
  by_cases h : c
  · simp [check, h]
  · simp [check, h]

@[simp] theorem ok_bind (a : α) (f : α → Except ε β) : (Except.ok a >>= f) = f a := rfl

@[simp] theorem error_bind (e : ε) (f : α → Except ε β) :
    (Except.error e >>= f) = .error e := rfl

@[simp] theorem pure_eq_ok (a : α) : (pure a : Except ε α) = .ok a := rfl

/-- Behind an assertion that holds, a computation goes on. -/
theorem check_bind {c : Prop} [Decidable c] {e : ε} (h : c) (f : Unit → Except ε β) :
    (check c e >>= f) = f () := by
  rw [check_ok h, ok_bind]

theorem bind_eq_ok {x : Except ε α} {f : α → Except ε β} {b : β} :
    (x >>= f) = .ok b ↔ ∃ a, x = .ok a ∧ f a = .ok b := by
  cases x with
  | error e => simp
  | ok a => simp

theorem map_eq_ok {x : Except ε α} {f : α → β} {b : β} :
    x.map f = .ok b ↔ ∃ a, x = .ok a ∧ f a = b := by
  cases x with
  | error e => simp [Except.map]
  | ok a => simp [Except.map]

/-- Behind an assertion a computation goes on only if it holds. -/
theorem of_check {c : Prop} [Decidable c] {e : ε} {f : Unit → Except ε β} {b : β}
    (h : (check c e >>= f) = .ok b) : c := by
  obtain ⟨u, hc, -⟩ := bind_eq_ok.mp h
  exact check_eq_ok.mp hc

/-- Run a computation inside one with more assertions, which names those of the inner
computation by `f`. -/
def nested (f : ε → ε') : Except ε α → Except ε' α
  | .ok a => .ok a
  | .error e => .error (f e)

@[simp] theorem nested_ok (f : ε → ε') (a : α) :
    nested f (Except.ok a) = .ok a := rfl

theorem nested_eq_ok {f : ε → ε'} {x : Except ε α} {a : α} : nested f x = .ok a ↔ x = .ok a := by
  cases x with
  | error e => simp [nested]
  | ok a => simp [nested]

theorem nested_eq_error {f : ε → ε'} {x : Except ε α} {e : ε'} :
    nested f x = .error e ↔ ∃ e', x = .error e' ∧ f e' = e := by
  cases x with
  | error e => simp [nested]
  | ok a => simp [nested]

theorem bind_eq_error {x : Except ε α} {f : α → Except ε β} {e : ε} :
    (x >>= f) = .error e ↔ x = .error e ∨ ∃ a, x = .ok a ∧ f a = .error e := by
  cases x with
  | error e' => simp
  | ok a => simp

/-! ## How a computation ends -/

/-- The computation ends in a value with `I`, or fails in an assertion with `E`. -/
def Ends (I : α → Prop) (E : ε → Prop) : Except ε α → Prop
  | .ok a => I a
  | .error e => E e

theorem Ends.bind {K : β → Prop} {x : Except ε α} {f : α → Except ε β} (hx : Ends I E x)
    (hf : ∀ a, I a → Ends K E (f a)) : Ends K E (x >>= f) := by
  cases x with
  | error e => exact hx
  | ok a => exact hf a hx

theorem Ends.map {K : β → Prop} {x : Except ε α} {f : α → β} (hx : Ends I E x)
    (hf : ∀ a, I a → K (f a)) : Ends K E (x.map f) := by
  cases x with
  | error e => exact hx
  | ok a => exact hf a hx

theorem Ends.check {c : Prop} [Decidable c] {e : ε} {f : Unit → Except ε α} (he : ¬ c → E e)
    (hf : c → Ends I E (f ())) : Ends I E (Lib.check c e >>= f) := by
  by_cases h : c
  · rw [check_bind h]
    exact hf h
  · rw [check_error h]
    exact he h

/-- An assertion of which it does not matter whether it holds. -/
theorem Ends.check_any {c : Prop} [Decidable c] {e : ε} {f : Unit → Except ε α} (he : E e)
    (hf : Ends I E (f ())) : Ends I E (Lib.check c e >>= f) :=
  Ends.check (fun _ => he) fun _ => hf

/-- An inner computation of which only the assertions matter. -/
theorem ends_nested {E' : ε' → Prop} {g : ε → ε'} (x : Except ε α) (hE : ∀ e, E' (g e)) :
    Ends (fun _ => True) E' (Lib.nested g x) := by
  cases x with
  | error e => exact hE e
  | ok a => trivial

theorem Ends.mono {E' : ε → Prop} {x : Except ε α} (h : Ends I E x) (hI : ∀ a, I a → J a)
    (hE : ∀ e, E e → E' e) : Ends J E' x := by
  cases x with
  | error e => exact hE e h
  | ok a => exact hI a h

/-- A step that is possible under a condition, and perhaps under more. -/
theorem of_guard' {c : Prop} [Decidable c] {x : Option α} {r : α}
    (h : (if c then x else none) = some r) : c ∧ x = some r := by
  split at h
  · exact ⟨‹c›, h⟩
  · cases h

/-- A step that is possible under a condition. -/
theorem of_guard {c : Prop} [Decidable c] {x r : α} (h : (if c then some x else none) = some r) :
    c ∧ x = r := by
  split at h
  · exact ⟨‹c›, Option.some.inj h⟩
  · cases h

end Zing.Lib
