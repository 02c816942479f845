set_option autoImplicit false

/-! # Reading a sequence of bytes

A `Reader` takes elements from the front of a list, may change a state `σ`, and may end early
with an exception, which leaves the list and the state as they were then. `Reads x P enc eff`
says what `x` reads: exactly the encodings `enc a` of the values with `P`, changing the state by
`eff a`. Since this is an equivalence it serves both to decode what has been encoded and to
find out what a list that has been read must look like.
-/

namespace Zing.Lib

/-- A computation that reads from a list and may end with an exception. -/
abbrev Reader (β σ ε : Type) := ExceptT ε (StateM (List β × σ))

namespace Reader

variable {β σ ε α γ : Type}

def exec (x : Reader β σ ε α) (s : List β × σ) : Except ε α × (List β × σ) := x.run.run s

theorem exec_pure (a : α) (s : List β × σ) :
    exec (pure a : Reader β σ ε α) s = (.ok a, s) := rfl

theorem exec_throw (e : ε) (s : List β × σ) :
    exec (throw e : Reader β σ ε α) s = (.error e, s) := rfl

theorem exec_bind (x : Reader β σ ε α) (f : α → Reader β σ ε γ) (s : List β × σ) :
    exec (x >>= f) s = match exec x s with
      | (.ok a, t) => exec (f a) t
      | (.error e, t) => (.error e, t) := by
  simp only [exec, ExceptT.run_bind, StateT.run_bind]
  cases h : StateT.run (ExceptT.run x) s with
  | mk r t =>
      cases r with
      | error e => rfl
      | ok a => rfl

theorem exec_bind_ok {x : Reader β σ ε α} {f : α → Reader β σ ε γ} {s t : List β × σ} {c : γ} :
    exec (x >>= f) s = (.ok c, t) ↔ ∃ a u, exec x s = (.ok a, u) ∧ exec (f a) u = (.ok c, t) := by
  rw [exec_bind]
  cases h : exec x s with
  | mk r u =>
      cases r with
      | error e => simp
      | ok a =>
          constructor
          · intro hf
            exact ⟨a, u, rfl, hf⟩
          · intro ⟨a', u', hau, hf⟩
            cases hau
            exact hf

/-! ## What a computation reads -/

/-- The computation reads the encodings of the values with `P`, and nothing else. -/
def Reads (x : Reader β σ ε α) (P : α → Prop) (enc : α → List β) (eff : α → σ → σ) : Prop :=
  ∀ bs s a bs' s', exec x (bs, s) = (.ok a, (bs', s')) ↔ P a ∧ bs = enc a ++ bs' ∧ s' = eff a s

variable {x : Reader β σ ε α} {P : α → Prop} {enc : α → List β} {eff : α → σ → σ}

/-- First `x`, then the rest. -/
theorem Reads.bind (hx : Reads x P enc eff) {f : α → Reader β σ ε γ} {bs : List β} {s : σ}
    {c : γ} {t : List β × σ} : exec (x >>= f) (bs, s) = (.ok c, t) ↔
      ∃ a bs', P a ∧ bs = enc a ++ bs' ∧ exec (f a) (bs', eff a s) = (.ok c, t) := by
  rw [exec_bind_ok]
  constructor
  · intro ⟨a, u, ha, hf⟩
    obtain ⟨hp, hbs, hs⟩ := (hx _ _ _ _ _).mp ha
    exact ⟨a, u.1, hp, hbs, hs ▸ hf⟩
  · intro ⟨a, bs', hp, hbs, hf⟩
    exact ⟨a, (bs', eff a s), (hx _ _ _ _ _).mpr ⟨hp, hbs, rfl⟩, hf⟩

/-- A condition that is checked; reading goes on only if it holds. -/
def ensure (c : Prop) [Decidable c] (e : ε) : Reader β σ ε Unit := if c then pure () else throw e

theorem ensure_reads (c : Prop) [Decidable c] (e : ε) :
    Reads (ensure c e : Reader β σ ε Unit) (fun _ => c) (fun _ => []) fun _ s => s := by
  intro bs s a bs' s'
  by_cases h : c
  · simp [ensure, h, exec_pure, eq_comm]
  · simp [ensure, h, exec_throw]

/-- `n` elements, of which there must be as many. -/
def take (n : Nat) (e : ε) : Reader β σ ε (List β) := do
  let (bs, s) ← get
  set (bs.drop n, s)
  ensure (n ≤ bs.length) e
  return bs.take n

theorem exec_take (n : Nat) (e : ε) (bs : List β) (s : σ) :
    exec (take n e : Reader β σ ε (List β)) (bs, s)
      = (if n ≤ bs.length then .ok (bs.take n) else .error e, (bs.drop n, s)) := by
  by_cases h : n ≤ bs.length
  · rw [if_pos h]
    show exec (ensure (n ≤ bs.length) e >>= fun _ => pure (bs.take n)) (bs.drop n, s) = _
    rw [ensure, if_pos h]
    rfl
  · rw [if_neg h]
    show exec (ensure (n ≤ bs.length) e >>= fun _ => pure (bs.take n)) (bs.drop n, s) = _
    rw [ensure, if_neg h]
    rfl

theorem take_reads (n : Nat) (e : ε) :
    Reads (take n e : Reader β σ ε (List β)) (fun as => as.length = n) (fun as => as)
      fun _ s => s := by
  intro bs s as bs' s'
  rw [exec_take]
  constructor
  · intro h
    by_cases hn : n ≤ bs.length
    · rw [if_pos hn] at h
      cases h
      exact ⟨List.length_take_of_le hn, (List.take_append_drop n bs).symm, rfl⟩
    · rw [if_neg hn] at h
      cases h
  · intro ⟨hl, hbs, hs⟩
    simp only at hl hbs hs
    have hn : n ≤ bs.length := by
      rw [hbs, List.length_append]
      omega
    rw [if_pos hn, hbs, List.take_left' hl, List.drop_left' hl, hs]

/-- Change the state. -/
def update (f : σ → σ) : Reader β σ ε Unit := modify fun (bs, s) => (bs, f s)

theorem exec_update (f : σ → σ) (bs : List β) (s : σ) :
    exec (update f : Reader β σ ε Unit) (bs, s) = (.ok (), (bs, f s)) := rfl

theorem exec_update_bind (f : σ → σ) (g : Unit → Reader β σ ε α) (bs : List β) (s : σ) :
    exec (update f >>= g) (bs, s) = exec (g ()) (bs, f s) := rfl

/-- The state. -/
def state : Reader β σ ε σ := do
  let (_, s) ← get
  return s

theorem exec_state_bind (g : σ → Reader β σ ε α) (bs : List β) (s : σ) :
    exec (state >>= g) (bs, s) = exec (g s) (bs, s) := rfl

/-- `n` values, one after the other. -/
def many (x : Reader β σ ε α) : Nat → Reader β σ ε (List α)
  | 0 => pure []
  | n + 1 => do
      let a ← x
      let as ← many x n
      return a :: as

theorem Reads.many (hx : Reads x P enc eff) (n : Nat) :
    Reads (many x n) (fun as => as.length = n ∧ ∀ a ∈ as, P a) (fun as => as.flatMap enc)
      fun as s => as.foldl (fun s a => eff a s) s := by
  induction n with
  | zero =>
      intro bs s as bs' s'
      rw [Reader.many, exec_pure]
      constructor
      · intro h
        cases h
        simp
      · intro ⟨⟨hl, _⟩, hbs, hs⟩
        obtain rfl := List.length_eq_zero_iff.mp hl
        simp [hbs, hs]
  | succ n ih =>
      intro bs s as bs' s'
      rw [Reader.many, hx.bind]
      constructor
      · intro ⟨a, bs₁, hp, hbs, hrest⟩
        obtain ⟨as₁, bs₂, hp₁, hbs₁, hret⟩ := ih.bind.mp hrest
        rw [exec_pure] at hret
        cases hret
        refine ⟨⟨?_, ?_⟩, ?_, rfl⟩
        · rw [List.length_cons, hp₁.1]
        · exact List.forall_mem_cons.mpr ⟨hp, hp₁.2⟩
        · simp only [hbs, hbs₁, List.flatMap_cons, List.append_assoc]
      · intro ⟨⟨hl, hp⟩, hbs, hs⟩
        obtain ⟨a, as, rfl⟩ := List.exists_cons_of_length_eq_add_one hl
        obtain ⟨hpa, hpas⟩ := List.forall_mem_cons.mp hp
        refine ⟨a, as.flatMap enc ++ bs', hpa, ?_, ?_⟩
        · simp only [hbs, List.flatMap_cons, List.append_assoc]
        · exact ih.bind.mpr ⟨as, bs', ⟨by simpa using hl, hpas⟩, rfl, by rw [exec_pure, hs]; rfl⟩

/-! ## What a computation leaves alone -/

/-- Whether it ends with a value or with an exception, the computation keeps `Q`. -/
def Keeps (Q : σ → Prop) (x : Reader β σ ε α) : Prop := ∀ s, Q s.2 → Q (exec x s).2.2

variable {Q : σ → Prop}

theorem keeps_pure (a : α) : Keeps Q (pure a : Reader β σ ε α) := fun _ h => h

theorem keeps_throw (e : ε) : Keeps Q (throw e : Reader β σ ε α) := fun _ h => h

theorem Keeps.bind {f : α → Reader β σ ε γ} (hx : Keeps Q x) (hf : ∀ a, Keeps Q (f a)) :
    Keeps Q (x >>= f) := by
  intro s hs
  have hq := hx s hs
  rw [exec_bind]
  cases h : exec x s with
  | mk r t =>
      rw [h] at hq
      cases r with
      | error e => exact hq
      | ok a => exact hf a t hq

theorem keeps_ensure (c : Prop) [Decidable c] (e : ε) :
    Keeps Q (ensure c e : Reader β σ ε Unit) := by
  rw [ensure]
  split
  · exact keeps_pure ()
  · exact keeps_throw e

theorem keeps_take (n : Nat) (e : ε) : Keeps Q (take n e : Reader β σ ε (List β)) := by
  intro ⟨bs, s⟩ hs
  rw [exec_take]
  exact hs

theorem keeps_update {f : σ → σ} (h : ∀ s, Q s → Q (f s)) :
    Keeps Q (update f : Reader β σ ε Unit) :=
  fun s hs => h s.2 hs

theorem Keeps.many (hx : Keeps Q x) (n : Nat) : Keeps Q (many x n) := by
  induction n with
  | zero => exact keeps_pure []
  | succ n ih => exact hx.bind fun a => ih.bind fun as => keeps_pure _

/-- If it ends with an exception, the computation has kept `Q`. -/
def KeepsOnError (Q : σ → Prop) (x : Reader β σ ε α) : Prop :=
  ∀ s, Q s.2 → ∀ e t, exec x s = (.error e, t) → Q t.2

theorem keepsOnError_update (f : σ → σ) :
    KeepsOnError Q (update f : Reader β σ ε Unit) := by
  intro s _ e t h
  rw [exec_update] at h
  cases h

theorem Keeps.bindOnError {f : α → Reader β σ ε γ} (hx : Keeps Q x)
    (hf : ∀ a, KeepsOnError Q (f a)) : KeepsOnError Q (x >>= f) := by
  intro s hs e t h
  have hq := hx s hs
  rw [exec_bind] at h
  cases hxs : exec x s with
  | mk r u =>
      rw [hxs] at h hq
      cases r with
      | error e' =>
          cases h
          exact hq
      | ok a => exact hf a u hq e t h

end Reader

end Zing.Lib
