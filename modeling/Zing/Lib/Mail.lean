import Mathlib.Data.List.Basic
import Mathlib.Logic.Function.Basic

set_option autoImplicit false

/-! # Messages to threads

Each thread has a queue of messages, which it takes in order; what has been taken, by
whichever thread, is recorded in the order in which it happened. `history p l` is what has been
taken of a kind `p`, followed by what waits of it at the thread `l`. If all of this kind goes to
`l`, taking a message leaves the history alone (`history_next`), so it is decided when the
message is posted.
-/

namespace Zing.Lib

structure Mail (L F : Type) where
  log : List F
  queue : L → List F

namespace Mail

variable {L F : Type}

/-- A thread does `f` without having been told by a message. -/
def direct (m : Mail L F) (f : F) : Mail L F := { m with log := m.log ++ [f] }

def history (m : Mail L F) (p : F → Bool) (l : L) : List F := (m.log ++ m.queue l).filter p

variable {m : Mail L F} {p : F → Bool} {f : F} {l k : L} {rest : List F}

theorem history_eq : m.history p l = m.log.filter p ++ (m.queue l).filter p :=
  List.filter_append ..

theorem log_prefix : m.log.filter p <+: m.history p l := by
  rw [history_eq]
  exact List.prefix_append _ _

theorem mem_history : f ∈ m.history p l ↔ (f ∈ m.log ∨ f ∈ m.queue l) ∧ p f = true := by
  rw [history, List.mem_filter, List.mem_append]

theorem history_direct_of_not (hp : p f = false) :
    (m.direct f).history p l = m.history p l := by
  rw [history_eq, history_eq, direct, List.filter_append, List.filter_singleton, hp,
    Bool.cond_false, List.append_nil]

theorem history_direct (hp : p f = true) (hq : (m.queue l).filter p = []) :
    (m.direct f).history p l = m.history p l ++ [f] := by
  rw [history_eq, history_eq, direct, List.filter_append, List.filter_singleton, hp,
    Bool.cond_true, hq, List.append_nil, List.append_nil]

variable [DecidableEq L]

def post (m : Mail L F) (l : L) (f : F) : Mail L F :=
  { m with queue := Function.update m.queue l (m.queue l ++ [f]) }

/-- The thread `l` takes its first message. -/
def next (m : Mail L F) (l : L) (f : F) (rest : List F) : Mail L F where
  log := m.log ++ [f]
  queue := Function.update m.queue l rest

@[simp] theorem post_queue_self : (m.post l f).queue l = m.queue l ++ [f] :=
  Function.update_self ..

theorem post_queue_of_ne (h : k ≠ l) : (m.post l f).queue k = m.queue k :=
  Function.update_of_ne h ..

@[simp] theorem next_queue_self : (m.next l f rest).queue l = rest := Function.update_self ..

theorem next_queue_of_ne (h : k ≠ l) : (m.next l f rest).queue k = m.queue k :=
  Function.update_of_ne h ..

theorem mem_post_queue {g : F} : g ∈ (m.post l f).queue k ↔ g ∈ m.queue k ∨ k = l ∧ g = f := by
  by_cases hk : k = l
  · subst hk
    rw [post_queue_self, List.mem_append, List.mem_singleton]
    simp
  · rw [post_queue_of_ne hk]
    simp [hk]

/-- What waits behind a message that is taken has waited before. -/
theorem mem_of_mem_next_queue {g : F} (hq : m.queue l = f :: rest)
    (h : g ∈ (m.next l f rest).queue k) : g ∈ m.queue k := by
  by_cases hk : k = l
  · subst hk
    rw [next_queue_self] at h
    rw [hq]
    exact List.mem_cons_of_mem f h
  · rwa [next_queue_of_ne hk] at h

theorem history_post_of_not (hp : p f = false) :
    (m.post k f).history p l = m.history p l := by
  by_cases hk : l = k
  · subst hk
    rw [history_eq, history_eq, post_queue_self, List.filter_append, List.filter_singleton, hp,
      Bool.cond_false, List.append_nil]
    rfl
  · rw [history, history, post_queue_of_ne hk]
    rfl

theorem history_post (hp : p f = true) :
    (m.post l f).history p l = m.history p l ++ [f] := by
  rw [history_eq, history_eq, post_queue_self, List.filter_append, List.filter_singleton, hp,
    Bool.cond_true, List.append_assoc]
  rfl

/-- Taking a message leaves the history alone. -/
theorem history_next (hq : m.queue k = f :: rest) (hp : p f = true → k = l) :
    (m.next k f rest).history p l = m.history p l := by
  by_cases hk : l = k
  · subst hk
    rw [history, history, next_queue_self, hq, next, List.append_assoc, List.singleton_append]
  · have hf : p f = false := by
      by_contra hne
      exact hk (hp ((Bool.not_eq_false _).mp hne)).symm
    rw [history_eq, history_eq, next_queue_of_ne hk, next, List.filter_append,
      List.filter_singleton, hf, Bool.cond_false, List.append_nil]

end Mail

end Zing.Lib
