import Mathlib.Logic.Function.Basic
import Zing.Lib.Assert

set_option autoImplicit false

/-! # Labelled transition systems with failing steps

A program is described by its initial states and by what each action does in each state:
the action may be impossible there, it may lead to a new state, or an assertion of the
program may fail, which ends the run.

* `System.Run P s as t`: the actions `as`, taken one after the other from `s`, all succeed
  and lead to `t`, and each of them satisfies the condition `P` in the state it is taken in.
* `System.Reachable P t`: `t` is the end of such a run from an initial state.
* `Run.invariant` and `Reachable.invariant` turn a fact about one step into a fact about all
  runs; `Reachable.safe` does the same for the assertions too, and `Run.refines` for a relation
  to an abstract machine.
* `System.exec` runs a list of actions, so that a concrete run can be computed, and
  `System.execIf` does so under a condition.
-/

namespace Zing.Lib

/-- A labelled transition system. `step s a` is `none` where the action `a` is not possible
in `s`, `some (.ok t)` where it leads to `t`, and `some (.error e)` where the assertion `e`
fails. -/
structure System (σ α ε : Type) where
  init : σ → Prop
  step : σ → α → Option (Except ε σ)

namespace System

variable {σ α ε β : Type} {M : System σ α ε} {P Q : σ → α → Prop}

/-- The action `a` leads from `s` to `t`. -/
def Next (M : System σ α ε) (s : σ) (a : α) (t : σ) : Prop := M.step s a = some (.ok t)

/-- The action `a` is possible in `s`, and the assertion `e` fails in it. -/
def Fails (M : System σ α ε) (s : σ) (a : α) (e : ε) : Prop := M.step s a = some (.error e)

/-- The condition that every step meets: runs without any restriction. -/
def always (_ : σ) (_ : α) : Prop := True

/-- The actions `as` lead from `s` to `t`, each meeting `P` where it is taken. -/
inductive Run (M : System σ α ε) (P : σ → α → Prop) (s : σ) : List α → σ → Prop
  | nil : Run M P s [] s
  | snoc {t u : σ} {as : List α} {a : α} :
      Run M P s as t → P t a → M.Next t a u → Run M P s (as ++ [a]) u

/-- The states that runs from an initial state lead to. -/
def Reachable (M : System σ α ε) (P : σ → α → Prop) (t : σ) : Prop :=
  ∃ s as, M.init s ∧ M.Run P s as t

/-! ## Composing runs -/

theorem Run.single {s t : σ} {a : α} (hp : P s a) (h : M.Next s a t) : M.Run P s [a] t :=
  Run.snoc Run.nil hp h

theorem Run.append {s t u : σ} {as bs : List α} (h₁ : M.Run P s as t)
    (h₂ : M.Run P t bs u) : M.Run P s (as ++ bs) u := by
  induction h₂ with
  | nil => rw [List.append_nil]; exact h₁
  | snoc _ hp hn ih =>
      rw [← List.append_assoc]
      exact Run.snoc ih hp hn

theorem Run.cons {s t u : σ} {a : α} {as : List α} (hp : P s a) (h : M.Next s a t)
    (hr : M.Run P t as u) : M.Run P s (a :: as) u :=
  Run.append (Run.single hp h) hr

/-- A condition on the actions alone holds along a run that takes only such actions. -/
theorem Run.of_actions {s t : σ} {as : List α} (h : M.Run P s as t)
    (hQ : ∀ a ∈ as, ∀ u, Q u a) : M.Run Q s as t := by
  induction h with
  | nil => exact Run.nil
  | snoc _ _ hn ih =>
      refine Run.snoc (ih fun a ha => hQ a (List.mem_append_left _ ha)) ?_ hn
      exact hQ _ (List.mem_append_right _ (List.mem_singleton_self _)) _

/-- A run under a condition is a run under a weaker one. -/
theorem Run.weaken {s t : σ} {as : List α} (h : M.Run P s as t)
    (hPQ : ∀ u a, P u a → Q u a) : M.Run Q s as t := by
  induction h with
  | nil => exact Run.nil
  | snoc _ hp hn ih => exact ih.snoc (hPQ _ _ hp) hn

theorem Reachable.weaken {t : σ} (h : M.Reachable P t) (hPQ : ∀ u a, P u a → Q u a) :
    M.Reachable Q t := by
  obtain ⟨s, as, h₀, hr⟩ := h
  exact ⟨s, as, h₀, hr.weaken hPQ⟩

theorem Reachable.of_init {s : σ} (h : M.init s) : M.Reachable P s :=
  ⟨s, [], h, Run.nil⟩

theorem Reachable.run {s t : σ} {as : List α} (h : M.Reachable P s)
    (hr : M.Run P s as t) : M.Reachable P t := by
  obtain ⟨s₀, bs, h₀, hb⟩ := h
  exact ⟨s₀, bs ++ as, h₀, hb.append hr⟩

/-! ## Invariants -/

/-- What one step preserves, a run preserves. -/
theorem Run.invariant {I : σ → Prop}
    (hstep : ∀ s a t, I s → P s a → M.Next s a t → I t)
    {s t : σ} {as : List α} (h : M.Run P s as t) (hs : I s) : I t := by
  induction h with
  | nil => exact hs
  | snoc _ hp hn ih => exact hstep _ _ _ ih hp hn

/-- What holds initially and is preserved by one step holds in every reachable state. -/
theorem Reachable.invariant {I : σ → Prop} (hinit : ∀ s, M.init s → I s)
    (hstep : ∀ s a t, I s → P s a → M.Next s a t → I t)
    {t : σ} (h : M.Reachable P t) : I t := by
  obtain ⟨s, as, h₀, hr⟩ := h
  exact hr.invariant hstep (hinit s h₀)

/-- A fact about how each step ends is a fact about all runs, and about the assertions that
may fail behind them. -/
theorem Reachable.safe {I : σ → Prop} {E : ε → Prop} (hinit : ∀ s, M.init s → I s)
    (hstep : ∀ s a r, I s → P s a → M.step s a = some r → Ends I E r)
    {t : σ} (h : M.Reachable P t) : I t ∧ ∀ a e, P t a → M.Fails t a e → E e := by
  have ht : I t := by
    apply h.invariant hinit
    intro s a u hs hp hn
    exact hstep s a (.ok u) hs hp hn
  refine ⟨ht, ?_⟩
  intro a e hp hf
  exact hstep t a (.error e) ht hp hf

/-- A relation to an abstract machine that each step preserves is preserved by runs: the
abstract machine follows the actions with its own total step. -/
theorem Run.refines {R : σ → β → Prop} {spec : β → α → β}
    (hstep : ∀ s a t b, R s b → P s a → M.Next s a t → R t (spec b a))
    {s t : σ} {as : List α} (h : M.Run P s as t) {b : β} (hs : R s b) :
    R t (as.foldl spec b) := by
  induction h with
  | nil => exact hs
  | snoc _ hp hn ih =>
      rw [List.foldl_append]
      exact hstep _ _ _ _ ih hp hn

/-! ## A record of what happens -/

section logged

variable {obs : σ → α → List β}

/-- The system with a record of what is observed of its steps. -/
def logged (M : System σ α ε) (obs : σ → α → List β) : System (σ × List β) α ε where
  init s := M.init s.1 ∧ s.2 = []
  step s a := (M.step s.1 a).map fun r => r.map fun t => (t, s.2 ++ obs s.1 a)

theorem logged_next {s t : σ × List β} {a : α} :
    (M.logged obs).Next s a t ↔ M.Next s.1 a t.1 ∧ t.2 = s.2 ++ obs s.1 a := by
  obtain ⟨t, log⟩ := t
  simp only [Next, logged]
  cases M.step s.1 a with
  | none => simp
  | some r =>
      cases r with
      | error e => simp [Except.map]
      | ok u => simp [Except.map, eq_comm]

end logged

/-! ## Two systems with the same actions -/

theorem Run.snoc_inv {s u : σ} {as : List α} {a : α} (h : M.Run P s (as ++ [a]) u) :
    ∃ t, M.Run P s as t ∧ P t a ∧ M.Next t a u := by
  generalize hbs : as ++ [a] = bs at h
  cases h with
  | nil => exact absurd hbs (List.append_ne_nil_of_right_ne_nil as (List.cons_ne_nil a []))
  | snoc hr hp hn =>
      obtain ⟨rfl, hlast⟩ := List.append_inj' hbs rfl
      obtain ⟨rfl, -⟩ := List.cons.inj hlast
      exact ⟨_, hr, hp, hn⟩

/-- The actions determine the state that a run ends in. -/
theorem Run.unique {s t u : σ} {as : List α} (h₁ : M.Run P s as t) (h₂ : M.Run Q s as u) :
    t = u := by
  induction h₁ generalizing u with
  | nil =>
      generalize hbs : ([] : List α) = bs at h₂
      cases h₂ with
      | nil => rfl
      | snoc hr hp hn =>
          exact absurd hbs.symm (List.append_ne_nil_of_right_ne_nil _ (List.cons_ne_nil _ []))
  | snoc _ _ hn ih =>
      obtain ⟨v, hr, -, hn'⟩ := h₂.snoc_inv
      have hv := ih hr
      subst hv
      rw [Next, hn, Option.some.injEq, Except.ok.injEq] at hn'
      exact hn'

theorem Run.cons_inv {s t : σ} {a : α} {as : List α} (h : M.Run P s (a :: as) t) :
    ∃ u, P s a ∧ M.Next s a u ∧ M.Run P u as t := by
  generalize hbs : a :: as = bs at h
  induction h generalizing as with
  | nil => cases hbs
  | @snoc t v cs b hr hp hn ih =>
      cases cs with
      | nil =>
          -- the first step is the last one
          obtain ⟨rfl, rfl⟩ := List.cons.inj hbs
          cases hr.unique (Run.nil : M.Run P s [] s)
          exact ⟨v, hp, hn, Run.nil⟩
      | cons c cs =>
          obtain ⟨rfl, rfl⟩ := List.cons.inj hbs
          obtain ⟨u, hp', hn', hrun⟩ := ih rfl
          exact ⟨u, hp', hn', hrun.snoc hp hn⟩

section follows

variable {τ : Type} {N : System τ α ε}

/-- Wherever `M` gets with a part of the actions `as`, `N` gets too, and the states look the
same. -/
def Follows (M : System σ α ε) (N : System τ α ε) (P : σ → α → Prop) (same : σ → τ → Prop)
    (s₀ : σ) (t₀ : τ) (as : List α) : Prop :=
  ∀ pre, pre <+: as → ∀ s, M.Run P s₀ pre s → ∃ t, N.Run always t₀ pre t ∧ same s t

/-- Each of the actions `as` that `M` takes meets `K`, which may look back at the actions
taken before. -/
def Meets (M : System σ α ε) (P : σ → α → Prop) (K : List α → σ → α → Prop) (s₀ : σ)
    (as : List α) : Prop :=
  ∀ pre a, pre ++ [a] <+: as → ∀ s u, M.Run P s₀ pre s → P s a → M.Next s a u → K pre s a

variable {same : σ → τ → Prop} {K : List α → σ → α → Prop} {s₀ : σ} {t₀ : τ}
  {R : List α → σ → τ → Prop}

theorem meets_nil : M.Meets P K s₀ [] := by
  intro pre a hpre
  have hlength := hpre.length_le
  simp at hlength

/-- The first action, and the others behind it. -/
theorem Meets.cons {u : σ} {a : α} {as : List α} (hk : K [] s₀ a) (hn : M.Next s₀ a u)
    (h : M.Meets P (fun pre => K (a :: pre)) u as) : M.Meets P K s₀ (a :: as) := by
  intro pre b hpre s v hs hp hv
  cases pre with
  | nil =>
      obtain ⟨rfl, -⟩ := List.cons_prefix_cons.mp hpre
      cases hs.unique (Run.nil : M.Run P s₀ [] s₀)
      exact hk
  | cons c pre =>
      obtain ⟨rfl, hrest⟩ := List.cons_prefix_cons.mp hpre
      obtain ⟨u', -, hn', hrun⟩ := hs.cons_inv
      rw [Next, hn, Option.some.injEq, Except.ok.injEq] at hn'
      subst hn'
      exact h pre b hrest s v hrun hp hv

/-- A relation that steps with `K` preserve is preserved along runs. -/
theorem related_of_steps (hinit : R [] s₀ t₀)
    (hstep : ∀ pre s t a u, R pre s t → P s a → M.Next s a u → K pre s a →
      ∃ v, N.Next t a v ∧ R (pre ++ [a]) u v)
    {as : List α}
    (hK : ∀ pre a, pre ++ [a] <+: as → ∀ s t u, M.Run P s₀ pre s → N.Run always t₀ pre t →
      R pre s t → P s a → M.Next s a u → K pre s a)
    {s : σ} (h : M.Run P s₀ as s) : ∃ t, N.Run always t₀ as t ∧ R as s t := by
  induction h with
  | nil => exact ⟨t₀, Run.nil, hinit⟩
  | @snoc s u as a hr hp hn ih =>
      obtain ⟨t, ht, hrel⟩ := ih fun pre b hpre =>
        hK pre b (hpre.trans (List.prefix_append as [a]))
      obtain ⟨v, hv, hrel'⟩ :=
        hstep as s t a u hrel hp hn (hK as a (List.prefix_refl _) s t u hr ht hrel hp hn)
      exact ⟨v, ht.snoc trivial hv, hrel'⟩

/-- The exact condition under which `N` follows `M`: with `K` a relation is preserved under
which states look the same, and a step without `K` makes them look different. -/
theorem follows_iff_meets (hinit : R [] s₀ t₀) (hsame : ∀ pre s t, R pre s t → same s t)
    (hstep : ∀ pre s t a u, R pre s t → P s a → M.Next s a u → K pre s a →
      ∃ v, N.Next t a v ∧ R (pre ++ [a]) u v)
    (hneed : ∀ pre s t a u v, R pre s t → P s a → M.Next s a u → N.Next t a v →
      same u v → K pre s a)
    (as : List α) : Follows M N P same s₀ t₀ as ↔ Meets M P K s₀ as := by
  constructor
  · intro hf
    -- the step of `N` is the one that `Follows` gives, since runs are unique
    have hK : ∀ pre a, pre ++ [a] <+: as → ∀ s t u, M.Run P s₀ pre s → N.Run always t₀ pre t →
        R pre s t → P s a → M.Next s a u → K pre s a := by
      intro pre a hpre s t u hs ht hrel hp hn
      obtain ⟨v, hv, hlook⟩ := hf _ hpre u (hs.snoc hp hn)
      obtain ⟨t', ht', -, hn'⟩ := hv.snoc_inv
      rw [ht'.unique ht] at hn'
      exact hneed pre s t a u v hrel hp hn hn' hlook
    intro pre a hpre s u hs hp hn
    obtain ⟨t, ht, hrel⟩ := related_of_steps hinit hstep
      (fun pre' b hpre' => hK pre' b (hpre'.trans ((List.prefix_append _ _).trans hpre))) hs
    exact hK pre a hpre s t u hs ht hrel hp hn
  · intro hm pre hpre s hs
    obtain ⟨t, ht, hrel⟩ := related_of_steps hinit hstep
      (fun pre' a hpre' s t u hs _ _ hp hn => hm pre' a (hpre'.trans hpre) s u hs hp hn) hs
    exact ⟨t, ht, hsame pre s t hrel⟩

end follows

/-! ## Computing a run -/

/-- Take the actions one after the other, stopping at the first that is not possible or
fails. -/
def exec (M : System σ α ε) : σ → List α → Option (Except ε σ)
  | s, [] => some (.ok s)
  | s, a :: as =>
      match M.step s a with
      | some (.ok t) => M.exec t as
      | r => r

theorem run_of_exec {s t : σ} {as : List α} (h : M.exec s as = some (.ok t)) :
    M.Run always s as t := by
  induction as generalizing s with
  | nil =>
      simp only [exec, Option.some.injEq, Except.ok.injEq] at h
      subst h
      exact Run.nil
  | cons a as ih =>
      rw [exec] at h
      cases hs : M.step s a with
      | none => rw [hs] at h; cases h
      | some r =>
          rw [hs] at h
          cases r with
          | error e => cases h
          | ok u => exact Run.cons trivial hs (ih h)

theorem exec_append {s t u : σ} {as : List α} {a : α} (h : M.exec s as = some (.ok t))
    (hn : M.Next t a u) : M.exec s (as ++ [a]) = some (.ok u) := by
  induction as generalizing s with
  | nil =>
      simp only [exec, Option.some.injEq, Except.ok.injEq] at h
      subst h
      rw [Next] at hn
      simp only [List.nil_append, exec, hn]
  | cons b as ih =>
      rw [exec] at h
      rw [List.cons_append, exec]
      cases hs : M.step s b with
      | none => rw [hs] at h; cases h
      | some r =>
          rw [hs] at h
          cases r with
          | error e => cases h
          | ok v => exact ih h

theorem Run.exec {s t : σ} {as : List α} (h : M.Run P s as t) :
    M.exec s as = some (.ok t) := by
  induction h with
  | nil => rfl
  | @snoc t u as a _ _ hn ih => exact exec_append ih hn

end System

end Zing.Lib
