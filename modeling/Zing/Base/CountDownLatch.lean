import Zing.Lib.CInt
import Zing.Lib.Condition
import Zing.Lib.System

set_option autoImplicit false

/-! # The count-down latch

`CountDownLatch` between any number of threads. An action is what a thread does while it holds
`mutex_`: a whole call of `countDown`, or the part of `wait` up to the next `wait()` of the
condition variable or to the end of the call. A blocked thread may wake up on its own.

`countDown` notifies only where `count_` is zero afterwards. `latch_opens` shows that this is
enough: no thread is left blocked, and none gets through earlier.
-/

namespace Zing.Base

open Zing.Lib

structure CountDownLatch (T : Type) where
  count : Int
  condition : Condition T

namespace CountDownLatch

variable {T : Type}

/-- The constructor. -/
def new (count : Int) : CountDownLatch T where
  count := count
  condition := .idle

def getCount (latch : CountDownLatch T) : Int := latch.count

variable [DecidableEq T]

/-- From the condition of the loop in `wait` on. -/
def wait (latch : CountDownLatch T) (t : T) : CountDownLatch T :=
  if 0 < latch.count then { latch with condition := latch.condition.wait t } else latch

def countDown (latch : CountDownLatch T) : Except Undefined (CountDownLatch T) := do
  let count ← int (latch.count - 1)
  if count = 0 then
    return { count := count, condition := latch.condition.notifyAll }
  else
    return { latch with count := count }

/-- `wait()` of the condition variable returns to `t`. -/
def resume (latch : CountDownLatch T) (t : T) : CountDownLatch T :=
  wait { latch with condition := latch.condition.resume t } t

inductive Action (T : Type)
  | wait (t : T)
  | resume (t : T)
  | countDown (t : T)
  /-- `t` wakes up without a notification. -/
  | wake (t : T)

def step (latch : CountDownLatch T) : Action T → Option (Except Undefined (CountDownLatch T))
  | .wait t => if ¬ latch.condition.Waiting t then some (.ok (latch.wait t)) else none
  | .resume t => if latch.condition.CanResume t then some (.ok (latch.resume t)) else none
  | .countDown t => if ¬ latch.condition.Waiting t then some latch.countDown else none
  | .wake t =>
      if t ∈ latch.condition.blocked then
        some (.ok { latch with condition := latch.condition.wake t })
      else none

/-- The runs of a latch that is constructed with `count`. -/
def runs (count : Int) : System (CountDownLatch T) (Action T) Undefined where
  init := fun latch => latch = new count
  step := step

def Action.isCountDown : Action T → Bool
  | .countDown _ => true
  | _ => false

/-- The calls of `countDown` among the actions. -/
def countDowns (as : List (Action T)) : ℕ := as.countP Action.isCountDown

/-! ## One step -/

variable {latch u : CountDownLatch T} {a : Action T} {t : T} {n : ℕ} {count : Int}

theorem wait_count : (latch.wait t).count = latch.count := by
  unfold wait
  split
  · rfl
  · rfl

theorem countDown_eq (latch : CountDownLatch T) (h : Fits 32 (latch.count - 1)) :
    latch.countDown = .ok
      { count := latch.count - 1
        condition :=
          if latch.count - 1 = 0 then latch.condition.notifyAll else latch.condition } := by
  have hint : int (Signed.val latch.count - 1) = .ok (latch.count - 1) := by
    rw [Signed.ofNat_eq, Signed.val_sub h]
    rfl
  unfold countDown
  rw [hint, ok_bind]
  split
  · rfl
  · rfl

theorem countDown_overflow (h : ¬ Fits 32 (latch.count - 1)) :
    latch.countDown = .error .overflow := by
  have hint : int (Signed.val latch.count - 1) = .error .overflow := by
    show Signed.ofInt 32 (latch.count - 1) = .error .overflow
    rw [Signed.ofInt, check_error h]
    rfl
  unfold countDown
  rw [hint, error_bind]

theorem countDown_eq_ok (h : latch.countDown = .ok u) :
    u.count = latch.count - 1 ∧ Fits 32 (latch.count - 1) ∧ u.condition =
      if latch.count - 1 = 0 then latch.condition.notifyAll else latch.condition := by
  by_cases hfit : Fits 32 (latch.count - 1)
  · rw [countDown_eq _ hfit, Except.ok.injEq] at h
    subst h
    exact ⟨rfl, hfit, rfl⟩
  · rw [countDown_overflow hfit] at h
    cases h

/-- What holds whenever no thread has `mutex_`, `n` calls of `countDown` behind the
construction with `count`. -/
structure Inv (count : Int) (n : ℕ) (latch : CountDownLatch T) : Prop where
  count_eq : latch.count = count - n
  fits : Fits 32 latch.count
  /-- The notification of all threads has come when `count_` is zero, and none blocks later. -/
  opened : latch.count ≤ 0 → latch.condition.blocked = ∅

omit [DecidableEq T] in
theorem inv_new (hcount : Fits 32 count) : Inv count 0 (new count : CountDownLatch T) where
  count_eq := (sub_zero count).symm
  fits := hcount
  opened := fun _ => rfl

/-- The loop blocks the thread only as long as the latch is closed. -/
theorem Inv.wait (h : Inv count n latch) : Inv count n (latch.wait t) where
  count_eq := by rw [wait_count, h.count_eq]
  fits := by rw [wait_count]; exact h.fits
  opened := by
    intro hcount
    rw [wait_count] at hcount
    rw [CountDownLatch.wait, if_neg (by omega)]
    exact h.opened hcount

theorem Inv.resume (h : Inv count n latch) : Inv count n (latch.resume t) :=
  Inv.wait ⟨h.count_eq, h.fits, h.opened⟩

theorem Inv.countDown (h : Inv count n latch) (hok : latch.countDown = .ok u) :
    Inv count (n + 1) u := by
  obtain ⟨hcount, hfits, hcondition⟩ := countDown_eq_ok hok
  have heq := h.count_eq
  refine ⟨by rw [hcount, heq]; push_cast; ring, by rw [hcount]; exact hfits, ?_⟩
  intro hle
  rw [hcondition]
  split
  · rfl
  · case isFalse hne => exact h.opened (by omega)

theorem Inv.wake (h : Inv count n latch) :
    Inv count n { latch with condition := latch.condition.wake t } where
  count_eq := h.count_eq
  fits := h.fits
  opened := by
    intro hcount
    show latch.condition.blocked.erase t = ∅
    rw [h.opened hcount, Finset.erase_empty]

theorem Inv.next (h : Inv count n latch) (hn : (runs count).Next latch a u) :
    Inv count (n + countDowns [a]) u := by
  have hs : step latch a = some (.ok u) := hn
  cases a with
  | wait t =>
      obtain ⟨-, heq⟩ := of_guard hs
      cases heq
      exact h.wait
  | resume t =>
      obtain ⟨-, heq⟩ := of_guard hs
      cases heq
      exact h.resume
  | countDown t =>
      obtain ⟨-, heq⟩ := of_guard hs
      exact h.countDown heq
  | wake t =>
      obtain ⟨-, heq⟩ := of_guard hs
      cases heq
      exact h.wake

/-! ## Runs -/

theorem run_inv (hcount : Fits 32 count) {as : List (Action T)}
    {P : CountDownLatch T → Action T → Prop}
    (h : (runs count).Run P (new count) as latch) : Inv count (countDowns as) latch := by
  induction h with
  | nil => exact inv_new hcount
  | snoc _ _ hn ih =>
      rw [countDowns, List.countP_append]
      exact ih.next hn

/-- A call gets through the loop exactly if the count is used up. -/
theorem waiting_wait_iff (h : ¬ latch.condition.Waiting t) :
    ¬ (latch.wait t).condition.Waiting t ↔ latch.count ≤ 0 := by
  by_cases hcount : 0 < latch.count
  · have hw : (latch.wait t).condition.Waiting t := by
      rw [CountDownLatch.wait, if_pos hcount]
      exact Condition.waiting_wait.mpr (Or.inl rfl)
    exact iff_of_false (fun hn => hn hw) (by omega)
  · rw [CountDownLatch.wait, if_neg hcount]
    exact iff_of_true h (by omega)

theorem waiting_resume_iff (h : latch.condition.CanResume t) :
    ¬ (latch.resume t).condition.Waiting t ↔ latch.count ≤ 0 :=
  waiting_wait_iff (Condition.not_waiting_resume h)

/-- Only `--count_` can go wrong. -/
theorem fails_iff (h : Inv count n latch) {e : Undefined} :
    (runs count).Fails latch a e ↔ e = .overflow ∧ latch.count = -2147483648 ∧
      ∃ t, a = .countDown t ∧ ¬ latch.condition.Waiting t := by
  have hroom : ¬ Fits 32 (latch.count - 1) ↔ latch.count = -2147483648 := by
    have hfits := fits_32.mp h.fits
    rw [fits_32]
    omega
  constructor
  · intro hf
    have hs : step latch a = some (.error e) := hf
    cases a with
    | wait t => cases (of_guard hs).2
    | resume t => cases (of_guard hs).2
    | wake t => cases (of_guard hs).2
    | countDown t =>
        obtain ⟨hfree, heq⟩ := of_guard hs
        have hnofit : ¬ Fits 32 (latch.count - 1) := by
          intro hfit
          rw [countDown_eq _ hfit] at heq
          cases heq
        rw [countDown_overflow hnofit] at heq
        cases heq
        exact ⟨rfl, hroom.mp hnofit, t, rfl, hfree⟩
  · rintro ⟨rfl, hcount, t, rfl, hfree⟩
    show step latch (.countDown t) = some (.error .overflow)
    rw [step, if_pos hfree, countDown_overflow (hroom.mpr hcount)]

/-- In every run of a latch: a call of `wait`, at its start or behind a wake-up, returns
exactly if `countDown` has been called `count` times; from then on no thread in `wait` is left
blocked, each of them can go on at once and return; and `countDown` goes wrong only where
`count_` has no room left. -/
theorem latch_opens (count : Int) (hcount : Fits 32 count) (as : List (Action T))
    (latch : CountDownLatch T) (h : (runs count).Run System.always (new count) as latch) :
    (∀ t a u, a = .wait t ∨ a = .resume t → (runs count).Next latch a u →
      (¬ u.condition.Waiting t ↔ count ≤ countDowns as)) ∧
    (count ≤ countDowns as → ∀ t, latch.condition.Waiting t →
      ∃ u, (runs count).Next latch (.resume t) u ∧ ¬ u.condition.Waiting t) ∧
    ∀ a e, (runs count).Fails latch a e ↔ e = .overflow ∧
      (countDowns as : Int) = count + 2147483648 ∧
        ∃ t, a = .countDown t ∧ ¬ latch.condition.Waiting t := by
  have hinv := run_inv hcount h
  have hopen : latch.count ≤ 0 ↔ count ≤ countDowns as := by
    rw [hinv.count_eq]
    omega
  refine ⟨?_, ?_, ?_⟩
  · rintro t a u (rfl | rfl) hn
    · obtain ⟨hfree, heq⟩ := of_guard (show step latch (.wait t) = some (.ok u) from hn)
      cases heq
      rw [waiting_wait_iff hfree, hopen]
    · obtain ⟨hcan, heq⟩ := of_guard (show step latch (.resume t) = some (.ok u) from hn)
      cases heq
      rw [waiting_resume_iff hcan, hopen]
  · intro hle t hw
    have hcan : latch.condition.CanResume t := by
      rcases hw with hb | hc
      · rw [hinv.opened (hopen.mpr hle)] at hb
        exact absurd hb (Finset.notMem_empty t)
      · exact hc
    refine ⟨latch.resume t, ?_, (waiting_resume_iff hcan).mpr (hopen.mpr hle)⟩
    exact if_pos hcan
  · intro a e
    rw [fails_iff hinv, hinv.count_eq]
    have hroom : (countDowns as : Int) = count + 2147483648 ↔
        count - countDowns as = -2147483648 := by omega
    rw [hroom]

/-- Two waiting threads, one of them woken too early, and two calls of `countDown`. -/
theorem latch_opens_sample : ∃ (as : List (Action ℕ)) (latch : CountDownLatch ℕ),
    (runs 2).Run System.always (new 2) as latch ∧ latch.condition.Waiting 1 ∧
      ∃ u, (runs 2).Next latch (.resume 1) u ∧ ¬ u.condition.Waiting 1 := by
  have hrun : ∃ latch : CountDownLatch ℕ, latch.condition.Waiting 1 ∧ (runs 2).exec (new 2)
      [.wait 1, .wait 2, .countDown 3, .wake 1, .resume 1, .countDown 4, .resume 2] =
        some (.ok latch) := ⟨_, by decide, rfl⟩
  obtain ⟨latch, hw, hexec⟩ := hrun
  have hr := System.run_of_exec hexec
  exact ⟨_, latch, hr, hw, (latch_opens 2 (by decide) _ latch hr).2.1 (by decide) 1 hw⟩

end CountDownLatch

end Zing.Base
