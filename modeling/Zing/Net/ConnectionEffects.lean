import Zing.Net.ConnectionSteps

set_option autoImplicit false

/-! # The effects of the connection's functions

A function of the connection changes the connection and then has effects on the poller and on
the queue of functors. `performed` is the state behind such a function, `perform_ends` says
that nothing else changes, and `perform_registered` says that the function does not fail for
the poller's sake while the channel is registered.
-/

namespace Zing.Net

open Zing.Lib

/-! ## What writing does to the connection -/

namespace TcpConnection

/-- The functors that call a callback of the user. -/
def Functor.isCallback : Functor → Bool
  | .writeCompleteCallback => true
  | .highWaterMarkCallback _ => true
  | _ => false

/-- `sendInLoop` and `handleWrite` change the interest in writing, and tell the poller. -/
structure Writes (conn conn' : TcpConnection) (es : List Effect) : Prop where
  state : conn'.state = conn.state
  channel : conn'.channel = conn.channel ∨ Effect.updateChannel ∈ es ∧
    (conn'.channel = conn.channel.enableWriting ∨ conn'.channel = conn.channel.disableWriting)
  callbacks : ∀ f, Effect.queueInLoop f ∈ es → f.isCallback = true

variable {conn conn' : TcpConnection} {es : List Effect} {f : Functor} {data : List Byte}
  {r : WriteResult}

/-- `writeCompleteCallback_` is queued and not called. -/
theorem isCallback_of_writeComplete (h : Effect.queueInLoop f ∈ conn.writeCompleteEffects) :
    f.isCallback = true := by
  unfold writeCompleteEffects at h
  split at h
  · cases List.mem_singleton.mp h
    rfl
  · cases h

/-- Likewise `highWaterMarkCallback_`. -/
theorem isCallback_of_highWater {n : Nat} (h : Effect.queueInLoop f ∈ conn.highWaterEffects n) :
    f.isCallback = true := by
  simp only [highWaterEffects] at h
  split at h
  · cases List.mem_singleton.mp h
    rfl
  · cases h

theorem isCallback_of_directWrite
    (h : Effect.queueInLoop f ∈ (conn.directWrite data r).effects) : f.isCallback = true := by
  unfold directWrite at h
  split at h
  · cases r with
    | accepted n =>
        rcases List.mem_cons.mp h with heq | h
        · cases heq
        · split at h
          · exact isCallback_of_writeComplete h
          · cases h
    | failed errno => cases List.mem_singleton.mp h
  · cases h

/-- The second half of `sendInLoop`: what the kernel did not take is kept, and the channel may
start to write. -/
theorem bufferRemaining_writes {d : Direct} (hd : ∀ f, .queueInLoop f ∈ d.effects → f.isCallback)
    (h : conn.bufferRemaining data d = .ok (conn', es)) : Writes conn conn' es := by
  obtain ⟨_, -, h⟩ := bind_eq_ok.mp h
  split at h
  · obtain ⟨out, -, h⟩ := bind_eq_ok.mp h
    simp only at h
    split at h
    · cases h
      refine ⟨rfl, Or.inr ⟨by simp, Or.inl rfl⟩, ?_⟩
      intro f hf
      rcases List.mem_append.mp hf with hf | hf
      · rcases List.mem_append.mp hf with hf | hf
        · exact hd f hf
        · exact isCallback_of_highWater hf
      · cases List.mem_singleton.mp hf
    · cases h
      refine ⟨rfl, Or.inl rfl, ?_⟩
      intro f hf
      rcases List.mem_append.mp hf with hf | hf
      · exact hd f hf
      · exact isCallback_of_highWater hf
  · cases h
    exact ⟨rfl, Or.inl rfl, hd⟩

/-- Both halves together. -/
theorem sendInLoop_writes (h : conn.sendInLoop data r = .ok (conn', es)) :
    Writes conn conn' es := by
  unfold sendInLoop at h
  split at h
  · cases h
    exact ⟨rfl, Or.inl rfl, by intro f hf; cases hf⟩
  · exact bufferRemaining_writes (fun f hf => isCallback_of_directWrite hf) h

/-- `handleWrite` takes from the front of the buffer, and may stop writing. -/
theorem handleWrite_writes (h : conn.handleWrite r = .ok (conn', es)) :
    Writes conn conn' es := by
  have hnone : ∀ c es, (∀ f, Effect.queueInLoop f ∉ es) → c.state = conn.state →
      c.channel = conn.channel → Writes conn c es :=
    fun c es hes hstate hchannel => ⟨hstate, Or.inl hchannel, fun f hf => absurd hf (hes f)⟩
  unfold handleWrite at h
  split at h
  · cases r with
    | accepted n =>
        simp only at h
        split at h
        · obtain ⟨out, -, h⟩ := bind_eq_ok.mp h
          split at h
          · cases h
            refine ⟨rfl, Or.inr ⟨by simp [outputDrained], Or.inr rfl⟩, ?_⟩
            intro f hf
            -- behind the write and the update come the callback and the shutdown
            simp only [outputDrained, List.mem_cons, List.mem_append, reduceCtorEq,
              false_or, List.cons_append] at hf
            rcases hf with hf | hf
            · exact isCallback_of_writeComplete hf
            · split at hf
              · simp only [shutdownInLoop] at hf
                split at hf
                · cases List.mem_singleton.mp hf
                · cases hf
              · cases hf
          · cases h
            exact hnone _ _ (by simp) rfl rfl
        · cases h
          exact hnone _ _ (by simp) rfl rfl
    | failed errno =>
        cases h
        exact hnone _ _ (by simp) rfl rfl
  · cases h
    exact hnone _ _ (by simp) rfl rfl

/-! ## What writing may fail -/

/-- The assertions of `sendInLoop` and of the output buffer. -/
def Assertion.writing : Assertion → Bool
  | .sendInLoopRemaining => true
  | .buffer _ => true
  | _ => false

theorem ends_buffer {α : Type} (x : Except Buffer.Assertion α) :
    Ends (fun _ => True) (fun a => a.writing = true) (nested Assertion.buffer x) :=
  ends_nested x fun _ => rfl

/-- It fails where a buffer does, or an assertion of its own. -/
theorem sendInLoop_fails {a : Assertion} (h : conn.sendInLoop data r = .error a) :
    a.writing = true := by
  have hends : Ends (fun _ => True) (fun a => a.writing = true) (conn.sendInLoop data r) := by
    unfold sendInLoop
    split
    · trivial
    · unfold bufferRemaining
      apply Ends.check
      · intro _
        rfl
      · intro _
        split
        · apply (ends_buffer _).bind
          intro out _
          dsimp only
          split
          · trivial
          · trivial
        · trivial
  rw [h] at hends
  exact hends

/-- So does `handleWrite`. -/
theorem handleWrite_fails {a : Assertion} (h : conn.handleWrite r = .error a) :
    a.writing = true := by
  have hends : Ends (fun _ => True) (fun a => a.writing = true) (conn.handleWrite r) := by
    unfold handleWrite
    split
    · cases r with
      | accepted n =>
          dsimp only
          split
          · apply (ends_buffer _).bind
            intro out _
            split
            · trivial
            · trivial
          · trivial
      | failed errno => trivial
    · trivial
  rw [h] at hends
  exact hends

/-! ## What reading does to the connection -/

/-- `startReadInLoop` only tells the poller. -/
theorem startReadInLoop_spec (h : conn.startReadInLoop = (conn', es)) :
    conn'.state = conn.state ∧ ∀ e ∈ es, e = .updateChannel := by
  unfold startReadInLoop at h
  split at h
  · cases h
    exact ⟨rfl, fun _ => List.mem_singleton.mp⟩
  · cases h
    exact ⟨rfl, by rintro _ ⟨⟩⟩

theorem stopReadInLoop_spec (h : conn.stopReadInLoop = (conn', es)) :
    conn'.state = conn.state ∧ ∀ e ∈ es, e = .updateChannel := by
  unfold stopReadInLoop at h
  split at h
  · cases h
    exact ⟨rfl, fun _ => List.mem_singleton.mp⟩
  · cases h
    exact ⟨rfl, by rintro _ ⟨⟩⟩

end TcpConnection

namespace Connection

open TcpConnection (Functor Effect)

variable {T : Type} {w w' : World T} {conn : TcpConnection} {es : List Effect}

/-- The functor that an effect posts. -/
def job : Effect → Option Job
  | .queueInLoop f => some (.conn f)
  | _ => none

namespace World

/-- The state behind a function of the connection, with the functors `js` posted. -/
def performed (w : World T) (conn : TcpConnection) (poller : Poller) (others : Channels)
    (js : List Job) : World T :=
  { w with conn := conn, poller := poller, others := others, pending := w.pending ++ js }

/-- The connection with another index in its channel. -/
def indexed (conn : TcpConnection) (k : Int) : TcpConnection :=
  { conn with channel := { conn.channel with index := k } }

/-! ## What effects leave alone -/

/-- An effect reaches the channel, the poller, the other objects and one queue. -/
theorem applyEffect_frame {e : Effect} (h : w.applyEffect e = .ok w') : ∃ c p o,
    w' = w.performed { w.conn with channel := c } p o (job e).toList := by
  have hsame : w = w.performed { w.conn with channel := w.conn.channel } w.poller w.others [] := by
    simp only [performed, List.append_nil]
  cases e with
  | write data r =>
      cases h
      exact ⟨_, _, _, hsame⟩
  | shutdownWrite =>
      cases h
      exact ⟨_, _, _, hsame⟩
  | queueInLoop f =>
      cases h
      exact ⟨w.conn.channel, w.poller, w.others, rfl⟩
  | updateChannel =>
      obtain ⟨r, -, h⟩ := bind_eq_ok.mp h
      cases h
      refine ⟨r.2 w.self, r.1, r.2, ?_⟩
      simp only [setPoller, performed, job, Option.toList, List.append_nil]

/-- By induction on the effects. -/
theorem applyEffects_frame (h : w.applyEffects es = .ok w') : ∃ c p o,
    w' = w.performed { w.conn with channel := c } p o (es.filterMap job) := by
  induction es generalizing w with
  | nil =>
      cases h
      refine ⟨w'.conn.channel, w'.poller, w'.others, ?_⟩
      simp only [performed, List.filterMap_nil, List.append_nil]
  | cons e es ih =>
      obtain ⟨w₁, he, h⟩ := bind_eq_ok.mp h
      obtain ⟨c₁, p₁, o₁, rfl⟩ := applyEffect_frame he
      obtain ⟨c, p, o, rfl⟩ := ih h
      refine ⟨c, p, o, ?_⟩
      cases hj : job e with
      | none => simp only [performed, List.filterMap_cons, hj, Option.toList, List.append_nil]
      | some j =>
          simp only [performed, List.filterMap_cons, hj, Option.toList, List.append_assoc,
            List.singleton_append]

/-- Only the poller can refuse one. -/
theorem applyEffects_fails {e : Assertion} (h : w.applyEffects es = .error e) :
    ∃ a, e = .pollerUpdate a := by
  induction es generalizing w with
  | nil => cases h
  | cons eff es ih =>
      rcases bind_eq_error.mp h with he | ⟨w₁, -, h⟩
      · cases eff with
        | updateChannel =>
            rcases bind_eq_error.mp he with he | ⟨r, -, he⟩
            · cases hr : w.poller.updateChannel w.self w.heap with
              | ok r =>
                  rw [hr] at he
                  cases he
              | error a =>
                  rw [hr] at he
                  cases he
                  exact ⟨a, rfl⟩
            · cases he
        | _ => cases he
      · exact ih h

/-- How a function of the connection may end. -/
theorem perform_ends (w : World T)
    (r : Except TcpConnection.Assertion (TcpConnection × List Effect)) :
    Ends (fun w' => ∃ conn es c p o, r = .ok (conn, es) ∧
        w' = w.performed { conn with channel := c } p o (es.filterMap job))
      (fun e => (∃ a, r = .error a ∧ e = .tcp a) ∨ ∃ a, e = .pollerUpdate a) (w.perform r) := by
  cases r with
  | error a => exact Or.inl ⟨a, rfl, rfl⟩
  | ok r =>
      cases h : w.perform (.ok r) with
      | error e => exact Or.inr (applyEffects_fails h)
      | ok w' =>
          obtain ⟨c, p, o, rfl⟩ := applyEffects_frame h
          exact ⟨r.1, r.2, c, p, o, rfl, rfl⟩

theorem mem_jobs_isCallback {j : Job}
    (hes : ∀ f, Effect.queueInLoop f ∈ es → f.isCallback = true) (hj : j ∈ es.filterMap job) :
    ∃ f : Functor, j = .conn f ∧ f.isCallback = true := by
  obtain ⟨e, he, hej⟩ := List.mem_filterMap.mp hj
  cases e with
  | queueInLoop f =>
      cases hej
      exact ⟨f, rfl, hes f he⟩
  | _ => cases hej

/-! ## Effects on a registered channel -/

/-- The channel object may have changed since the poller, which knows the objects `h`, was
last told. -/
structure Stale (w : World T) (h : Channels) : Prop where
  wf : w.poller.WF h
  registered : w.poller.Registered h w.self
  heap : w.heap = Function.update h w.self w.conn.channel
  fd : w.conn.channel.fd = (h w.self).fd
  index : w.conn.channel.index = (h w.self).index

@[simp] theorem heap_self (w : World T) : w.heap w.self = w.conn.channel :=
  Function.update_self ..

/-- The other channels are where they were. -/
theorem heap_of_ne (w : World T) {a : ChannelPtr} (ha : a ≠ w.self) : w.heap a = w.others a :=
  Function.update_of_ne ha ..

theorem setPoller_heap (w : World T) (p : Poller) (o : Channels) :
    (w.setPoller (p, o)).heap = o :=
  Function.update_eq_self ..

/-- An update of a new or a registered channel succeeds. -/
theorem updateChannel_ok {h : Channels} (hwf : w.poller.WF h)
    (hown : w.poller.Fresh h w.self ∨ w.poller.Registered h w.self)
    (hheap : w.heap = Function.update h w.self w.conn.channel)
    (hfd : w.conn.channel.fd = (h w.self).fd) (hindex : w.conn.channel.index = (h w.self).index) :
    ∃ w', w.updateChannel = .ok w' ∧ (∃ k p o, w' = w.performed (indexed w.conn k) p o []) ∧
      w'.poller.WF w'.heap ∧ w'.poller.Registered w'.heap w'.self ∧
      (w.poller.Registered h w.self → w.conn.channel.isNoneEvent = true →
        w'.poller.Disabled w'.heap w'.self) := by
  obtain ⟨p, o, hok, hwf', hup, -, hdis⟩ := Poller.updateChannel_spec hwf hown hfd hindex
  obtain ⟨k, hk⟩ := hup.self
  refine ⟨w.setPoller (p, o), ?_, ⟨k, p, o, ?_⟩, ?_, ?_, ?_⟩
  · unfold updateChannel
    rw [hheap, hok]
    rfl
  · simp only [setPoller, performed, indexed, hk, List.append_nil]
  · rw [setPoller_heap]
    exact hwf'
  · rw [setPoller_heap]
    show p.channels.lookup (o w.self).fd = some w.self
    rw [hk, hup.lookup]
    exact if_pos rfl
  · rw [setPoller_heap]
    exact hdis

/-- Before the first update nothing is stale. -/
theorem stale_heap (hwf : w.poller.WF w.heap) (hreg : w.poller.Registered w.heap w.self) :
    w.Stale w.heap where
  wf := hwf
  registered := hreg
  heap := by
    rw [← heap_self w]
    exact (Function.update_eq_self ..).symm
  fd := by rw [heap_self]
  index := by rw [heap_self]

/-- Changing the connection changes no descriptor and no index. -/
theorem Stale.of_conn (hwf : w.poller.WF w.heap)
    (hreg : w.poller.Registered w.heap w.self) (hfd : conn.channel.fd = w.conn.channel.fd)
    (hindex : conn.channel.index = w.conn.channel.index) :
    Stale { w with conn := conn } w.heap where
  wf := hwf
  registered := hreg
  heap := (Function.update_idem ..).symm
  fd := by
    rw [heap_self]
    exact hfd
  index := by
    rw [heap_self]
    exact hindex

/-- What the effects `es` of a function lead to while the channel is registered; `disabled`
says what the poller knew before. -/
structure Told (w : World T) (es : List Effect) (disabled : Prop) (w' : World T) : Prop where
  eq : ∃ k p o, w' = w.performed (indexed w.conn k) p o (es.filterMap job)
  wf : w'.poller.WF w'.heap
  registered : w'.poller.Registered w'.heap w'.self
  disabled : w.conn.channel.isNoneEvent = true → Effect.updateChannel ∈ es ∨ disabled →
    w'.poller.Disabled w'.heap w'.self

theorem performed_performed (w : World T) (c c' : TcpConnection) (p p' : Poller)
    (o o' : Channels) (js js' : List Job) :
    (w.performed c p o js).performed c' p' o' js' = w.performed c' p' o' (js ++ js') := by
  simp only [performed, List.append_assoc]

/-- An effect that is no update of the channel leaves the poller alone. -/
theorem applyEffect_quiet {e : Effect} (he : e ≠ .updateChannel) :
    w.applyEffect e = .ok { w with pending := w.pending ++ (job e).toList } := by
  cases e with
  | updateChannel => exact absurd rfl he
  | queueInLoop f => rfl
  | _ =>
      simp only [job, Option.toList, List.append_nil]
      rfl

/-- Effects that tell the poller of the change succeed, and so do all effects when there is
nothing to tell. -/
theorem Stale.applyEffects {h : Channels} (hs : w.Stale h)
    (htell : Effect.updateChannel ∈ es ∨ h = w.heap) :
    ∃ w', w.applyEffects es = .ok w' ∧ w.Told es (w.poller.Disabled h w.self) w' := by
  induction es generalizing w h with
  | nil =>
      have hheap : h = w.heap := htell.resolve_left List.not_mem_nil
      subst hheap
      refine ⟨w, rfl, ⟨w.conn.channel.index, w.poller, w.others, ?_⟩, hs.wf, hs.registered, ?_⟩
      · simp only [performed, indexed, List.filterMap_nil, List.append_nil]
      · intro _ hd
        exact hd.resolve_left List.not_mem_nil
  | cons e es ih =>
      by_cases he : e = .updateChannel
      · -- from here on there is nothing more to tell
        subst he
        obtain ⟨w₁, hok₁, ⟨k₁, p₁, o₁, rfl⟩, hwf₁, hreg₁, hdis₁⟩ :=
          updateChannel_ok hs.wf (Or.inr hs.registered) hs.heap hs.fd hs.index
        obtain ⟨w₂, hok₂, ⟨k, p, o, rfl⟩, hwf₂, hreg₂, hdis₂⟩ :=
          ih (stale_heap hwf₁ hreg₁) (Or.inr rfl)
        refine ⟨_, ?_, ⟨k, p, o, ?_⟩, hwf₂, hreg₂, ?_⟩
        · rw [World.applyEffects, World.applyEffect, hok₁, ok_bind]
          exact hok₂
        · exact performed_performed ..
        · intro hnone _
          exact hdis₂ hnone (Or.inr (hdis₁ hs.registered hnone))
      · have hmem : Effect.updateChannel ∈ e :: es ↔ Effect.updateChannel ∈ es := by
          simp only [List.mem_cons, Ne.symm he, false_or]
        have hs₁ : Stale { w with pending := w.pending ++ (job e).toList } h :=
          ⟨hs.wf, hs.registered, hs.heap, hs.fd, hs.index⟩
        rw [hmem] at htell
        obtain ⟨w₂, hok₂, ⟨k, p, o, rfl⟩, hwf₂, hreg₂, hdis₂⟩ := ih hs₁ htell
        refine ⟨_, ?_, ⟨k, p, o, ?_⟩, hwf₂, hreg₂, ?_⟩
        · rw [World.applyEffects, applyEffect_quiet he, ok_bind]
          exact hok₂
        · cases hj : job e <;>
            simp [performed, hj]
        · rw [hmem]
          exact hdis₂

/-- A function of the connection that tells the poller when it has changed its channel does
not fail for the poller's sake. -/
theorem perform_registered (conn : TcpConnection) (hwf : w.poller.WF w.heap)
    (hreg : w.poller.Registered w.heap w.self) (hfd : conn.channel.fd = w.conn.channel.fd)
    (hindex : conn.channel.index = w.conn.channel.index)
    (htell : Effect.updateChannel ∈ es ∨ conn.channel = w.conn.channel) :
    ∃ w', w.perform (.ok (conn, es)) = .ok w' ∧
      Told { w with conn := conn } es (w.poller.Disabled w.heap w.self) w' := by
  apply Stale.applyEffects (Stale.of_conn hwf hreg hfd hindex)
  rcases htell with htell | hsame
  · exact Or.inl htell
  · refine Or.inr ?_
    simp only [heap, hsame]

/-! ## Other channels -/

/-- The poller has worked for another channel: at most the index of this one has changed, and
that only if the poller knows it. -/
structure Spares (w : World T) (r : Poller × Channels) : Prop where
  wf : r.1.WF r.2
  self : ∃ k, r.2 w.self = { w.conn.channel with index := k }
  unregistered : ¬ w.poller.Registered w.heap w.self → r.2 w.self = w.conn.channel
  lookup : r.1.channels.lookup w.conn.channel.fd = w.poller.channels.lookup w.conn.channel.fd
  disabled : w.poller.Registered w.heap w.self → w.poller.Disabled w.heap w.self →
    r.1.Disabled r.2 w.self
  watches : w.poller.Registered w.heap w.self →
    r.1.watches w.conn.channel.fd = w.poller.watches w.conn.channel.fd

/-- Another object, and another descriptor. -/
theorem isOther_iff {a : ChannelPtr} : w.isOther a = true ↔
    a ≠ w.self ∧ (w.heap a).fd ≠ w.conn.channel.fd := by
  simp only [isOther, Bool.and_eq_true, decide_eq_true_eq]
  constructor
  · rintro ⟨hne, hfd⟩
    rw [heap_of_ne w hne]
    exact ⟨hne, hfd⟩
  · rintro ⟨hne, hfd⟩
    rw [heap_of_ne w hne] at hfd
    exact ⟨hne, hfd⟩

/-- An update of another channel leaves the slot of this one alone, -/
theorem updateOther_spares (hwf : w.poller.WF w.heap) {a : ChannelPtr} {c : Channel}
    (hc : w.mayUpdateOther a c) :
    ∃ r, w.poller.updateChannel a (Function.update w.heap a c) = .ok r ∧ w.Spares r := by
  obtain ⟨hother, hfd, hindex, hown⟩ := hc
  obtain ⟨hne, hfdne⟩ := isOther_iff.mp hother
  rw [← heap_of_ne w hne] at hfd hindex
  obtain ⟨p, o, hok, hwf', hup, hkeep, -⟩ := Poller.updateChannel_spec hwf hown hfd hindex
  have hself : o w.self = w.conn.channel := by
    rw [hup.others _ (Ne.symm hne), heap_self]
  refine ⟨(p, o), hok, hwf', ⟨w.conn.channel.index, hself⟩, fun _ => hself, ?_,
    hkeep _ (Ne.symm hne), fun hreg => ?_⟩
  · show p.channels.lookup _ = _
    rw [hup.lookup, hfd, if_neg (Ne.symm hfdne)]
  · have hw := Poller.updateChannel_watches_other hwf hown hfd hindex hok (Ne.symm hne) hreg
    rw [heap_self] at hw
    exact hw

/-- and so does its removal. -/
theorem removeOther_spares (hwf : w.poller.WF w.heap) {a : ChannelPtr} {r : Poller × Channels}
    (hother : w.isOther a = true) (hr : w.poller.removeChannel a w.heap = .ok r) :
    w.Spares r := by
  obtain ⟨hne, hfdne⟩ := isOther_iff.mp hother
  obtain ⟨hreg, hnone, hdis⟩ := Poller.removeChannel_ok hr
  obtain ⟨p, o, hok, hwf', hrem, hkeep⟩ := Poller.removeChannel_spec hwf hreg hnone hdis
  rw [hok] at hr
  cases hr
  refine ⟨hwf', ?_, fun hunreg => ?_, ?_, hkeep _ (Ne.symm hne), fun hregs => ?_⟩
  · obtain ⟨k, hk⟩ := hrem.same w.self
    rw [heap_self] at hk
    exact ⟨k, hk⟩
  · rw [← heap_self w]
    exact Poller.removeChannel_unregistered hwf hok (Ne.symm hne) hunreg
  · show p.channels.lookup _ = _
    rw [hrem.lookup, if_neg (Ne.symm hfdne)]
  · have hw := Poller.removeChannel_watches_other hwf hok (Ne.symm hne) hregs
    rw [heap_self] at hw
    exact hw

end World

end Connection

end Zing.Net
