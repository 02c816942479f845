import Zing.Net.ServerLoops

set_option autoImplicit false

/-! # The invariant of a server among its loops

The history of a connection, what has been called for it followed by what is due, is its
`connectEstablished`, and with `connectDestroyed` behind it when it has been removed. `Inv` says
so, and what it takes to keep it so: where a functor waits, which removals are due, and what the
table has. The lemmas are about the parts of which the steps are made.

A step makes a functor due in one of two ways, by posting it or by calling it at once (`Told`),
and takes it off when its loop comes to it (`take`). A removal is due twice: while its loop is in
`handleClose`, and while it waits on the base loop; `removals` counts both.
-/

namespace Zing.Net.ServerLoops

open Zing.Lib
open TcpConnection (StateE)

variable {L : Type} [DecidableEq L]

namespace World

/-- The calls of `connectEstablished` and `connectDestroyed` for one connection, those that are
due behind those that have been. -/
def history (w : World L) (n : Nat) : List Functor := w.mail.history (Functor.isOf n) (w.loop n)

/-- The removals of a connection that are due. -/
def removals (w : World L) (n : Nat) : Nat :=
  (w.mail.queue w.base).count (.removeConnectionInLoop n) +
    -- a `closeCallback_` in front of which its loop is
    if w.closing (w.loop n) = some n then 1 else 0

/-- The functor is in the queue in which it belongs. -/
def Addressed (w : World L) (l : L) : Functor → Prop
  | .connectEstablished n => n < w.accepted ∧ w.loop n = l
  | .connectDestroyed n => n < w.accepted ∧ w.loop n = l
  | .removeConnectionInLoop n => n < w.accepted ∧ l = w.base

/-- While the server is there: a connection whose removal is due has been closed and is not yet
destroyed, and so are the connections of the table but for the close. -/
structure Attached (w : World L) : Prop where
  removals : ∀ n < w.accepted, w.removals n ≤ 1
  removing : ∀ n < w.accepted, 0 < w.removals n →
    (w.conn n).state = .kDisconnected ∧ w.history n = [.connectEstablished n]
  destroyed : ∀ n < w.accepted, w.history n = [.connectEstablished n, .connectDestroyed n] →
    (w.conn n).state = .kDisconnected
  table : ∀ name c, w.server.connections.lookup name = some c → c.ordinal < w.accepted ∧
    (w.entry c.ordinal).name = name ∧ w.history c.ordinal = [.connectEstablished c.ordinal]

/-- What holds between the steps. Functors wait where they belong and `closing` names connections
of its loop (`queued`, `closing`); on the base loop `connectEstablished` is called at once
(`direct`); each connection has the history it should have (`history`); and behind `~TcpServer`,
which has only connections to go through that are not destroyed yet (`todo`), nothing bound to the
server is due (`quiet`). -/
structure Inv (w : World L) : Prop where
  queued : ∀ l, ∀ f ∈ w.mail.queue l, w.Addressed l f
  logged : ∀ n, (∃ f ∈ w.mail.log, f.isOf n = true) → n < w.accepted
  closing : ∀ l n, w.closing l = some n → n < w.accepted ∧ w.loop n = l
  direct : ∀ n < w.accepted, w.loop n = w.base → .connectEstablished n ∈ w.mail.log
  history : ∀ n < w.accepted, w.history n = [.connectEstablished n] ∨
    w.history n = [.connectEstablished n, .connectDestroyed n]
  attached : w.life = .alive → w.Attached
  todo : ∀ todo, w.life = .destructing todo →
    todo.Nodup ∧ ∀ n ∈ todo, n < w.accepted ∧ w.history n = [.connectEstablished n]
  quiet : w.life ≠ .alive → ¬ w.Bound

end World

variable {w v : World L} {l : L} {n m : Nat} {f : Functor} {rest : List Functor}

@[simp] theorem isOf_connectEstablished :
    (Functor.connectEstablished n).isOf m = decide (n = m) := by
  simp [Functor.isOf]

@[simp] theorem isOf_connectDestroyed :
    (Functor.connectDestroyed n).isOf m = decide (n = m) := by
  simp [Functor.isOf]

@[simp] theorem isOf_removeConnectionInLoop :
    (Functor.removeConnectionInLoop n).isOf m = false := by
  simp [Functor.isOf]

namespace World

section

omit [DecidableEq L]

/-- The functors of a connection are in the queue of its loop. -/
theorem Addressed.of_isOf (h : w.Addressed l f) (hf : f.isOf n = true) :
    n < w.accepted ∧ w.loop n = l := by
  cases f with
  | connectEstablished k =>
      rw [isOf_connectEstablished, decide_eq_true_eq] at hf
      exact hf ▸ h
  | connectDestroyed k =>
      rw [isOf_connectDestroyed, decide_eq_true_eq] at hf
      exact hf ▸ h
  | removeConnectionInLoop k =>
      rw [isOf_removeConnectionInLoop] at hf
      cases hf

/-- An accept does not take a functor away from where it belongs. -/
theorem Addressed.imp (h : w.Addressed l f) (haccepted : w.accepted ≤ v.accepted)
    (hloop : ∀ n < w.accepted, v.loop n = w.loop n) (hbase : v.base = w.base) :
    v.Addressed l f := by
  cases f with
  | connectEstablished n => exact ⟨Nat.lt_of_lt_of_le h.1 haccepted, (hloop n h.1).trans h.2⟩
  | connectDestroyed n => exact ⟨Nat.lt_of_lt_of_le h.1 haccepted, (hloop n h.1).trans h.2⟩
  | removeConnectionInLoop n => exact ⟨Nat.lt_of_lt_of_le h.1 haccepted, h.2.trans hbase.symm⟩

@[simp] theorem setConn_loop (conn : TcpConnection) : (w.setConn n conn).loop m = w.loop m := by
  by_cases hm : m = n
  · subst hm
    simp [setConn, loop]
  · simp [setConn, loop, Function.update_of_ne hm]

@[simp] theorem setConn_name (conn : TcpConnection) :
    ((w.setConn n conn).entry m).name = (w.entry m).name := by
  by_cases hm : m = n
  · subst hm
    simp [setConn]
  · simp [setConn, Function.update_of_ne hm]

theorem setConn_conn (conn : TcpConnection) :
    (w.setConn n conn).conn m = if m = n then conn else w.conn m := by
  by_cases hm : m = n
  · subst hm
    simp [setConn, World.conn]
  · simp [setConn, World.conn, hm]

@[simp] theorem history_setConn (conn : TcpConnection) :
    (w.setConn n conn).history m = w.history m := by
  simp only [World.history, setConn_loop]
  rfl

@[simp] theorem removals_setConn (conn : TcpConnection) :
    (w.setConn n conn).removals m = w.removals m := by
  simp only [World.removals, setConn_loop]
  rfl

/-! ## A function of the connection

`connectEstablished`, `connectDestroyed` and `handleClose` change one connection and nothing
else, so all that matters is that a disconnected connection stays disconnected. -/

/-- What changes a connection does not take it out of `kDisconnected`. -/
theorem Inv.setConn {conn : TcpConnection} (h : Inv w)
    (hstate : (w.conn n).state = .kDisconnected → conn.state = .kDisconnected) :
    Inv (w.setConn n conn) := by
  have hclosed : ∀ m, (w.conn m).state = .kDisconnected →
      ((w.setConn n conn).conn m).state = .kDisconnected := by
    intro m hm
    rw [setConn_conn]
    split
    · rename_i heq
      subst heq
      exact hstate hm
    · exact hm
  refine ⟨?_, h.logged, ?_, ?_, ?_, ?_, ?_, h.quiet⟩
  · intro l f hf
    exact (h.queued l f hf).imp (Nat.le_refl _) (fun m _ => setConn_loop conn) rfl
  · intro l m hl
    rw [setConn_loop]
    exact h.closing l m hl
  · intro m hm hl
    rw [setConn_loop] at hl
    exact h.direct m hm hl
  · intro m hm
    rw [history_setConn]
    exact h.history m hm
  · intro halive
    have hatt := h.attached halive
    refine ⟨?_, ?_, ?_, ?_⟩
    · intro m hm
      rw [removals_setConn]
      exact hatt.removals m hm
    · intro m hm hpos
      rw [removals_setConn] at hpos
      rw [history_setConn]
      exact (hatt.removing m hm hpos).imp_left (hclosed m)
    · intro m hm hd
      rw [history_setConn] at hd
      exact hclosed m (hatt.destroyed m hm hd)
    · intro name c hc
      rw [history_setConn, setConn_name]
      exact hatt.table name c hc
  · intro todo htodo
    refine (h.todo todo htodo).imp_right fun hall m hm => ?_
    rw [history_setConn]
    exact hall m hm

/-- `connectEstablished` finds the connection in `kConnecting`, or its assertion fails. -/
theorem Inv.connectEstablished (h : Inv w) (n : Nat) :
    Ends Inv (fun e => e ≠ .deadServer) (w.connectEstablished n) := by
  unfold World.connectEstablished
  cases hr : (w.conn n).connectEstablished with
  | error e =>
      rintro ⟨⟩
  | ok r =>
      apply h.setConn
      intro hd
      -- `assert(state_ == kConnecting)` has not failed
      obtain ⟨_, hcheck, -⟩ := bind_eq_ok.mp hr
      rw [check_eq_ok.mp hcheck] at hd
      cases hd

theorem disconnected_state {conn : TcpConnection} (h : conn.state = .kDisconnected) :
    (disconnected conn).state = .kDisconnected := by
  rw [disconnected, if_neg]
  · exact h
  · rw [h]
    rintro ⟨⟩

/-- `connectDestroyed` keeps the invariant whatever it finds: it leaves no connection but in
`kDisconnected`. -/
theorem Inv.connectDestroyed (h : Inv w) (n : Nat) :
    Ends Inv (fun e => e ≠ .deadServer) (w.connectDestroyed n) := by
  unfold World.connectDestroyed
  apply Ends.check_any (by rintro ⟨⟩)
  exact h.setConn fun hd => disconnected_state hd

/-! ## A functor is taken -/

/-- What is due shrinks, and the histories stay. -/
theorem Attached.imp (h : w.Attached) (haccepted : v.accepted = w.accepted)
    (hentry : v.entry = w.entry) (hserver : v.server = w.server)
    (hhistory : ∀ n < w.accepted, v.history n = w.history n)
    (hremovals : ∀ n < w.accepted, v.removals n ≤ w.removals n) : v.Attached where
  removals := by
    intro n hn
    rw [haccepted] at hn
    exact Nat.le_trans (hremovals n hn) (h.removals n hn)
  removing := by
    intro n hn hpos
    rw [haccepted] at hn
    rw [World.conn, hentry, hhistory n hn]
    exact h.removing n hn (Nat.lt_of_lt_of_le hpos (hremovals n hn))
  destroyed := by
    intro n hn hd
    rw [haccepted] at hn
    rw [hhistory n hn] at hd
    rw [World.conn, hentry]
    exact h.destroyed n hn hd
  table := by
    intro name c hc
    rw [hserver] at hc
    have hold := h.table name c hc
    rw [haccepted, hentry, hhistory _ hold.1]
    exact hold

end

/-- Taking a functor moves it from what is due to what has been called, and the history is both.
-/
theorem history_take (h : Inv w) (hq : w.mail.queue l = f :: rest) (n : Nat) :
    { w with mail := w.mail.next l f rest }.history n = w.history n := by
  apply Mail.history_next hq
  intro hf
  exact ((h.queued l f (by rw [hq]; exact List.mem_cons_self)).of_isOf hf).2.symm

/-- A removal that is taken is not due any more. -/
theorem removals_take (hq : w.mail.queue l = f :: rest) (n : Nat) :
    { w with mail := w.mail.next l f rest }.removals n ≤ w.removals n := by
  apply Nat.add_le_add_right
  by_cases hl : w.base = l
  · subst hl
    show ((w.mail.next w.base f rest).queue w.base).count _ ≤ _
    rw [Mail.next_queue_self, hq]
    exact List.count_le_count_cons
  · show ((w.mail.next l f rest).queue w.base).count _ ≤ _
    rw [Mail.next_queue_of_ne hl]

/-- A loop takes the first of its functors, which it has still to call. -/
theorem Inv.take (h : Inv w) (hq : w.mail.queue l = f :: rest) :
    Inv { w with mail := w.mail.next l f rest } := by
  have hf := h.queued l f (by rw [hq]; exact List.mem_cons_self)
  refine ⟨?_, ?_, h.closing, ?_, ?_, ?_, ?_, ?_⟩
  · intro k g hg
    exact (h.queued k g (Mail.mem_of_mem_next_queue hq hg)).imp (Nat.le_refl _)
      (fun _ _ => rfl) rfl
  · rintro n ⟨g, hg, hof⟩
    rcases List.mem_append.mp hg with hg | hg
    · exact h.logged n ⟨g, hg, hof⟩
    · rw [List.mem_singleton.mp hg] at hof
      exact (hf.of_isOf hof).1
  · intro n hn hl
    exact List.mem_append_left _ (h.direct n hn hl)
  · intro n hn
    rw [history_take h hq]
    exact h.history n hn
  · intro halive
    exact (h.attached halive).imp rfl rfl rfl (fun n _ => history_take h hq n)
      fun n _ => removals_take hq n
  · intro todo htodo
    refine (h.todo todo htodo).imp_right fun hall n hn => ?_
    rw [history_take h hq]
    exact hall n hn
  · intro hlife hbound
    apply h.quiet hlife
    exact hbound.imp_left fun ⟨n, hn⟩ => ⟨n, Mail.mem_of_mem_next_queue hq hn⟩

/-- `handleClose` goes on behind the user's callback. -/
theorem removals_endClose (h : Inv w) (hl : w.closing l = some n) (m : Nat) :
    w.removals m = { w with closing := Function.update w.closing l none }.removals m +
      if m = n then 1 else 0 := by
  have hloop := (h.closing l n hl).2
  show _ = _ + (if Function.update w.closing l none (w.loop m) = some m then 1 else 0) + _
  unfold removals
  by_cases hm : m = n
  · subst hm
    rw [hloop, hl, Function.update_self, if_pos rfl, if_neg (by rintro ⟨⟩), if_pos rfl]
  · rw [if_neg hm]
    by_cases hlm : w.loop m = l
    · have hne : w.closing (w.loop m) ≠ some m := by
        rw [hlm, hl]
        intro heq
        exact hm (Option.some.inj heq).symm
      rw [if_neg hne, hlm, Function.update_self, if_neg (by rintro ⟨⟩)]
    · rw [Function.update_of_ne hlm]
      rfl

/-- The loop leaves `handleClose` for `closeCallback_`. -/
theorem Inv.endClose (h : Inv w) (hl : w.closing l = some n) :
    Inv { w with closing := Function.update w.closing l none } := by
  have hclosing : ∀ k m, Function.update w.closing l none k = some m → w.closing k = some m := by
    intro k m hk
    by_cases hkl : k = l
    · subst hkl
      rw [Function.update_self] at hk
      cases hk
    · rwa [Function.update_of_ne hkl] at hk
  -- only the removals count what `closing` says
  refine ⟨?_, h.logged, ?_, h.direct, h.history, ?_, h.todo, ?_⟩
  · intro k g hg
    exact (h.queued k g hg).imp (Nat.le_refl _) (fun _ _ => rfl) rfl
  · intro k m hk
    exact h.closing k m (hclosing k m hk)
  · intro halive
    refine (h.attached halive).imp rfl rfl rfl (fun _ _ => rfl) fun m _ => ?_
    rw [removals_endClose h hl m]
    exact Nat.le_add_right _ _
  · intro hlife hbound
    apply h.quiet hlife
    exact hbound.imp_right fun ⟨k, m, hk⟩ => ⟨k, m, hclosing k m hk⟩

/-! ## A functor becomes due -/

/-- It has been posted to a loop, or called on the base loop. -/
inductive Told (w : World L) (l : L) (f : Functor) : Mail L Functor → Prop
  | posted : Told w l f (w.mail.post l f)
  | called (hl : l = w.base) : Told w l f (w.mail.direct f)

variable {mail : Mail L Functor}

/-- The functor is the last one of the history of its connection. On the base loop it is called
ahead of what waits there, so nothing of the connection may wait. -/
theorem Told.history_self (ht : Told w l f mail) (hof : f.isOf n = true)
    (hqueue : l = w.base → (w.mail.queue l).filter (Functor.isOf n) = []) :
    mail.history (Functor.isOf n) l = w.mail.history (Functor.isOf n) l ++ [f] := by
  cases ht with
  | posted => exact Mail.history_post hof
  | called hl => exact Mail.history_direct hof (hqueue hl)

/-- The history of another connection stays. -/
theorem Told.history_of_not {k : L} (ht : Told w l f mail) (hof : f.isOf m = false) :
    mail.history (Functor.isOf m) k = w.mail.history (Functor.isOf m) k := by
  cases ht with
  | posted => exact Mail.history_post_of_not hof
  | called => exact Mail.history_direct_of_not hof

/-- What waits behind it waited before, or is the functor itself. -/
theorem Told.mem_queue {k : L} {g : Functor} (ht : Told w l f mail) (hg : g ∈ mail.queue k) :
    g ∈ w.mail.queue k ∨ k = l ∧ g = f := by
  cases ht with
  | posted => exact Mail.mem_post_queue.mp hg
  | called => exact Or.inl hg

/-- The functor is no removal, and the removals that wait are as many as before. -/
theorem Told.count (ht : Told w l f mail) (hf : f ≠ .removeConnectionInLoop m) :
    (mail.queue w.base).count (.removeConnectionInLoop m) =
      (w.mail.queue w.base).count (.removeConnectionInLoop m) := by
  cases ht with
  | called => rfl
  | posted =>
      by_cases hl : w.base = l
      · rw [hl, Mail.post_queue_self, List.count_append, List.count_singleton,
          beq_eq_false_iff_ne.mpr hf]
        rfl
      · rw [Mail.post_queue_of_ne hl]

theorem Told.mem_log {g : Functor} (ht : Told w l f mail) (hg : g ∈ mail.log) :
    g ∈ w.mail.log ∨ g = f := by
  cases ht with
  | posted => exact Or.inl hg
  | called => exact (List.mem_append.mp hg).imp_right List.mem_singleton.mp

theorem Told.mem_log_of_mem {g : Functor} (ht : Told w l f mail) (hg : g ∈ w.mail.log) :
    g ∈ mail.log := by
  cases ht with
  | posted => exact hg
  | called => exact List.mem_append_left _ hg

omit [DecidableEq L] in
/-- On the base loop `connectEstablished` has been called, and the queue has nothing more of a
connection that is not destroyed. -/
theorem Inv.queue_base (h : Inv w) (hn : n < w.accepted)
    (hhistory : w.history n = [.connectEstablished n]) (hl : w.loop n = w.base) :
    (w.mail.queue (w.loop n)).filter (Functor.isOf n) = [] := by
  have hlog : .connectEstablished n ∈ w.mail.log.filter (Functor.isOf n) :=
    List.mem_filter.mpr ⟨h.direct n hn hl, by simp⟩
  have hlength := congrArg List.length hhistory
  rw [World.history, Mail.history_eq, List.length_append, List.length_singleton] at hlength
  have hpos := List.length_pos_of_mem hlog
  apply List.eq_nil_of_length_eq_zero
  omega

/-- A functor that is no removal does not change the number of removals. -/
theorem Told.removals {server : TcpServer} {life : Life} (ht : Told w l f mail)
    (hf : ∀ m, f ≠ .removeConnectionInLoop m) (m : Nat) :
    { w with server := server, life := life, mail := mail }.removals m = w.removals m :=
  congrArg (· + _) (ht.count (hf m))

/-- The connection leaves the table as its `connectDestroyed` becomes due. -/
theorem Attached.due {server : TcpServer} {life : Life} (h : w.Attached)
    (hd : Told w (w.loop n) (.connectDestroyed n) mail)
    (hremoved : w.removals n = 0) (hstate : (w.conn n).state = .kDisconnected)
    (htable : ∀ name c, server.connections.lookup name = some c →
      w.server.connections.lookup name = some c ∧ c.ordinal ≠ n) :
    { w with server := server, life := life, mail := mail }.Attached := by
  have hother : ∀ m, m ≠ n →
      mail.history (Functor.isOf m) (w.loop m) = w.history m :=
    fun m hm => hd.history_of_not (by simp [Ne.symm hm])
  refine ⟨?_, ?_, ?_, ?_⟩
  · intro m hm
    rw [hd.removals (by rintro _ ⟨⟩)]
    exact h.removals m hm
  · intro m hm hpos
    rw [hd.removals (by rintro _ ⟨⟩)] at hpos
    have hmn : m ≠ n := by
      rintro rfl
      omega
    refine (h.removing m hm hpos).imp_right fun hold => ?_
    exact (hother m hmn).trans hold
  · intro m hm hdd
    by_cases hmn : m = n
    · subst hmn
      exact hstate
    · exact h.destroyed m hm ((hother m hmn).symm.trans hdd)
  · intro name c hc
    obtain ⟨hc, hne⟩ := htable name c hc
    obtain ⟨hlt, hname, hhist⟩ := h.table name c hc
    exact ⟨hlt, hname, (hother _ hne).trans hhist⟩

/-- The connection leaves the table, or the list of `~TcpServer`, as its `connectDestroyed`
becomes due. -/
theorem Inv.due {server : TcpServer} {life : Life} (h : Inv w)
    (hd : Told w (w.loop n) (.connectDestroyed n) mail) (hn : n < w.accepted)
    (hhistory : w.history n = [.connectEstablished n])
    (halive : life = .alive → w.life = .alive ∧ w.removals n = 0 ∧
      (w.conn n).state = .kDisconnected ∧ ∀ name c, server.connections.lookup name = some c →
        w.server.connections.lookup name = some c ∧ c.ordinal ≠ n)
    (htodo : ∀ todo, life = .destructing todo →
      todo.Nodup ∧ n ∉ todo ∧ ∃ todo', w.life = .destructing todo' ∧ ∀ m ∈ todo, m ∈ todo')
    (hquiet : life ≠ .alive → w.life ≠ .alive) :
    Inv { w with server := server, life := life, mail := mail } := by
  have hself : mail.history (Functor.isOf n) (w.loop n) =
      [.connectEstablished n, .connectDestroyed n] := by
    rw [hd.history_self (by simp) (h.queue_base hn hhistory)]
    exact congrArg (· ++ [Functor.connectDestroyed n]) hhistory
  have hother : ∀ m, m ≠ n →
      mail.history (Functor.isOf m) (w.loop m) = w.history m :=
    fun m hm => hd.history_of_not (by simp [Ne.symm hm])
  refine ⟨?_, ?_, h.closing, ?_, ?_, ?_, ?_, ?_⟩
  · intro k f hf
    rcases hd.mem_queue hf with hf | ⟨rfl, rfl⟩
    · exact (h.queued k f hf).imp (Nat.le_refl _) (fun _ _ => rfl) rfl
    · exact ⟨hn, rfl⟩
  · rintro m ⟨f, hf, hof⟩
    rcases hd.mem_log hf with hf | rfl
    · exact h.logged m ⟨f, hf, hof⟩
    · rw [isOf_connectDestroyed, decide_eq_true_eq] at hof
      exact hof ▸ hn
  · intro m hm hl
    exact hd.mem_log_of_mem (h.direct m hm hl)
  -- only the history of `n` has grown, by the functor that is due
  · intro m hm
    by_cases hmn : m = n
    · subst hmn
      exact Or.inr hself
    · have hold := h.history m hm
      rw [← hother m hmn] at hold
      exact hold
  · intro hl
    obtain ⟨hlife, hremoved, hstate, htable⟩ := halive hl
    exact (h.attached hlife).due hd hremoved hstate htable
  · intro todo ht
    obtain ⟨hnodup, hnot, todo', hlife, hsub⟩ := htodo todo ht
    refine ⟨hnodup, fun m hm => ?_⟩
    obtain ⟨hlt, hhist⟩ := (h.todo todo' hlife).2 m (hsub m hm)
    refine ⟨hlt, (hother m ?_).trans hhist⟩
    rintro rfl
    exact hnot hm
  · intro hl hbound
    apply h.quiet (hquiet hl)
    refine hbound.imp_left ?_
    rintro ⟨m, hm⟩
    rcases hd.mem_queue hm with hm | ⟨-, heq⟩
    · exact ⟨m, hm⟩
    · cases heq

/-! ## The removal of a connection -/

/-- The connection has been closed, and no removal is on its way. -/
structure Closed (w : World L) (n : Nat) : Prop where
  accepted : n < w.accepted
  life : w.life = .alive
  removals : w.removals n = 0
  state : (w.conn n).state = .kDisconnected
  history : w.history n = [.connectEstablished n]

omit [DecidableEq L] in
/-- What is bound to the server is due only while the server is there. -/
theorem alive_of_bound (h : Inv w) (hb : w.Bound) : w.life = .alive := by
  by_contra hlife
  exact h.quiet hlife hb

omit [DecidableEq L] in
/-- `connections_.erase(conn->name())` leaves the entries of other names. -/
theorem lookup_erase {server server' : TcpServer} {conn c : Conn} {name : List Char}
    (hr : server.removeConnectionInLoop conn = .ok server')
    (hc : server'.connections.lookup name = some c) :
    name ≠ conn.name ∧ server.connections.lookup name = some c := by
  obtain ⟨_, -, hok⟩ := bind_eq_ok.mp hr
  cases hok
  have hc' : (server.connections.erase conn.name).lookup name = some c := hc
  by_cases hname : name = conn.name
  · subst hname
    rw [AList.lookup_erase] at hc'
    cases hc'
  · rw [AList.lookup_erase_ne hname] at hc'
    exact ⟨hname, hc'⟩

/-- `removeConnectionInLoop` of a closed connection takes it out of the table and posts its
`connectDestroyed`. -/
theorem Inv.removeConnectionInLoop (h : Inv w) (hc : Closed w n) :
    Ends Inv (fun e => e ≠ .deadServer) (w.removeConnectionInLoop n) := by
  unfold World.removeConnectionInLoop
  apply Ends.check
  · intro hlife
    rw [hc.life] at hlife
    exact absurd (by rintro ⟨⟩) hlife
  intro _
  cases hr : w.server.removeConnectionInLoop ⟨n, (w.entry n).name⟩ with
  | error e => rintro ⟨⟩
  | ok server =>
      refine h.due .posted hc.accepted hc.history (fun hlife => ?_) (fun todo htodo => ?_) id
      · refine ⟨hc.life, hc.removals, hc.state, fun name c hlookup => ?_⟩
        -- `erase` takes the one entry of this connection off, by its name
        obtain ⟨hname, hlookup⟩ := lookup_erase hr hlookup
        refine ⟨hlookup, ?_⟩
        rintro rfl
        exact hname ((h.attached hc.life).table name c hlookup).2.1.symm
      · rw [hc.life] at htodo
        cases htodo

theorem removals_take_self (hq : w.mail.queue w.base = .removeConnectionInLoop n :: rest) :
    w.removals n =
      { w with mail := w.mail.next w.base (.removeConnectionInLoop n) rest }.removals n + 1 := by
  show _ = ((w.mail.next w.base _ rest).queue w.base).count _ + _ + 1
  rw [removals, hq, List.count_cons_self, Mail.next_queue_self, Nat.add_right_comm]
  rfl

omit [DecidableEq L] in
/-- A connection whose removal is due has been closed. -/
theorem closed_of_removal (h : Inv w) (hlife : w.life = .alive) (hn : n < w.accepted)
    (hlife' : v.life = w.life) (haccepted : v.accepted = w.accepted)
    (hentry : v.entry = w.entry) (hhistory : v.history n = w.history n)
    (hremovals : w.removals n = v.removals n + 1) : Closed v n := by
  have hatt := h.attached hlife
  have hle := hatt.removals n hn
  obtain ⟨hstate, hhist⟩ := hatt.removing n hn (by omega)
  refine ⟨by rwa [haccepted], hlife'.trans hlife, by omega, ?_, hhistory.trans hhist⟩
  rw [conn, hentry]
  exact hstate

omit [DecidableEq L] in
/-- A removal that is called is one that is taken off. -/
theorem Inv.logRemoval (h : Inv w) (n : Nat) :
    Inv { w with mail := w.mail.direct (.removeConnectionInLoop n) } := by
  have hhistory : ∀ m, { w with
      mail := w.mail.direct (.removeConnectionInLoop n) }.history m = w.history m :=
    fun m => Mail.history_direct_of_not isOf_removeConnectionInLoop
  refine ⟨?_, ?_, h.closing, ?_, ?_, ?_, ?_, h.quiet⟩
  · intro k f hf
    exact (h.queued k f hf).imp (Nat.le_refl _) (fun _ _ => rfl) rfl
  · rintro m ⟨f, hf, hof⟩
    rcases List.mem_append.mp hf with hf | hf
    · exact h.logged m ⟨f, hf, hof⟩
    · rw [List.mem_singleton.mp hf, isOf_removeConnectionInLoop] at hof
      cases hof
  · intro m hm hl
    exact List.mem_append_left _ (h.direct m hm hl)
  · intro m hm
    rw [hhistory]
    exact h.history m hm
  · intro halive
    exact (h.attached halive).imp rfl rfl rfl (fun m _ => hhistory m) fun _ _ => Nat.le_refl _
  · intro todo htodo
    refine (h.todo todo htodo).imp_right fun hall m hm => ?_
    rw [hhistory]
    exact hall m hm

omit [DecidableEq L] in
/-- A removal of a closed connection sets off. -/
theorem Attached.removing_one (h : w.Attached) (hc : Closed w n)
    (haccepted : v.accepted = w.accepted) (hentry : v.entry = w.entry)
    (hserver : v.server = w.server) (hhistory : ∀ m < w.accepted, v.history m = w.history m)
    (hremovals : ∀ m < w.accepted, v.removals m = w.removals m + if m = n then 1 else 0) :
    v.Attached where
  removals := by
    intro m hm
    rw [haccepted] at hm
    rw [hremovals m hm]
    split
    · rename_i heq
      rw [heq, hc.removals]
    · exact h.removals m hm
  removing := by
    intro m hm hpos
    rw [haccepted] at hm
    rw [hremovals m hm] at hpos
    rw [World.conn, hentry, hhistory m hm]
    split at hpos
    · rename_i heq
      subst heq
      exact ⟨hc.state, hc.history⟩
    · exact h.removing m hm hpos
  destroyed := by
    intro m hm hd
    rw [haccepted] at hm
    rw [hhistory m hm] at hd
    rw [World.conn, hentry]
    exact h.destroyed m hm hd
  table := by
    intro name c hlookup
    rw [hserver] at hlookup
    have hold := h.table name c hlookup
    rw [haccepted, hentry, hhistory _ hold.1]
    exact hold

/-- From another loop than the base loop, the removal of a closed connection is posted. -/
theorem Inv.postRemoval (h : Inv w) (hc : Closed w n) :
    Inv { w with mail := w.mail.post w.base (.removeConnectionInLoop n) } := by
  have hhistory : ∀ m, { w with
      mail := w.mail.post w.base (.removeConnectionInLoop n) }.history m = w.history m :=
    fun m => Mail.history_post_of_not isOf_removeConnectionInLoop
  refine ⟨?_, h.logged, h.closing, h.direct, ?_, ?_, ?_, ?_⟩
  · intro k f hf
    rcases Mail.mem_post_queue.mp hf with hf | ⟨rfl, rfl⟩
    · exact (h.queued k f hf).imp (Nat.le_refl _) (fun _ _ => rfl) rfl
    · exact ⟨hc.accepted, rfl⟩
  · intro m hm
    rw [hhistory]
    exact h.history m hm
  · intro halive
    refine (h.attached halive).removing_one hc rfl rfl rfl (fun m _ => hhistory m) fun m _ => ?_
    have hcount : ((w.mail.post w.base (.removeConnectionInLoop n)).queue w.base).count
          (.removeConnectionInLoop m) =
        (w.mail.queue w.base).count (.removeConnectionInLoop m) + if m = n then 1 else 0 := by
      rw [Mail.post_queue_self, List.count_append, List.count_singleton]
      by_cases hm : m = n
      · subst hm
        simp
      · simp [hm, Ne.symm hm]
    show ((w.mail.post w.base _).queue w.base).count _ + _ = _
    rw [hcount, removals, Nat.add_right_comm]
    rfl
  · intro todo htodo
    exact absurd (hc.life.symm.trans htodo) (by rintro ⟨⟩)
  · intro hlife
    exact absurd hc.life hlife

/-- `handleClose` goes as far as the user's callback. -/
theorem Inv.beginClose (h : Inv w) (hc : Closed w n) (hfree : w.closing (w.loop n) = none) :
    Inv { w with closing := Function.update w.closing (w.loop n) (some n) } := by
  refine ⟨?_, h.logged, ?_, h.direct, h.history, ?_, h.todo, ?_⟩
  · intro k f hf
    exact (h.queued k f hf).imp (Nat.le_refl _) (fun _ _ => rfl) rfl
  · intro k m hk
    by_cases hkl : k = w.loop n
    · subst hkl
      have hk' : Function.update w.closing (w.loop n) (some n) (w.loop n) = some m := hk
      rw [Function.update_self] at hk'
      cases hk'
      exact ⟨hc.accepted, rfl⟩
    · have hk' : Function.update w.closing (w.loop n) (some n) k = some m := hk
      rw [Function.update_of_ne hkl] at hk'
      exact h.closing k m hk'
  · intro halive
    refine (h.attached halive).removing_one hc rfl rfl rfl (fun _ _ => rfl) fun m _ => ?_
    have hclosing : (if Function.update w.closing (w.loop n) (some n) (w.loop m) = some m then 1
        else 0) = (if w.closing (w.loop m) = some m then 1 else 0) + if m = n then 1 else 0 := by
      by_cases hl : w.loop m = w.loop n
      · rw [hl, hfree, Function.update_self]
        simp [eq_comm]
      · have hm : m ≠ n := by
          rintro rfl
          exact hl rfl
        rw [Function.update_of_ne hl, if_neg hm, Nat.add_zero]
    show _ + (if Function.update w.closing (w.loop n) (some n) (w.loop m) = some m then 1
      else 0) = _
    rw [hclosing, ← Nat.add_assoc]
    rfl
  · intro hlife
    exact absurd hc.life hlife

omit [DecidableEq L] in
theorem handleClose_state {conn : TcpConnection} {r : TcpConnection × List TcpConnection.Effect}
    (h : conn.handleClose = .ok r) : r.1.state = .kDisconnected := by
  obtain ⟨_, -, hok⟩ := bind_eq_ok.mp h
  cases hok
  rfl

/-- `assert(state_ == kConnected || state_ == kDisconnecting)` -/
theorem handleClose_open {conn : TcpConnection} {r : TcpConnection × List TcpConnection.Effect}
    (h : conn.handleClose = .ok r) : conn.state ≠ .kDisconnected := by
  obtain ⟨_, hcheck, -⟩ := bind_eq_ok.mp h
  intro hd
  have hup := check_eq_ok.mp hcheck
  rw [hd] at hup
  rcases hup with ⟨⟨⟩⟩ | ⟨⟨⟩⟩

omit [DecidableEq L] in
/-- Whatever `handleClose` fails on, it is not the destroyed server. -/
theorem handleClose_fails (w : World L) (n : Nat) :
    Ends (fun _ => True) (fun e => e ≠ .deadServer) (w.handleClose n) := by
  apply (ends_nested _ fun _ => by rintro ⟨⟩).bind
  rintro r -
  trivial

/-- A connection that is closed has not been closed before, or the assertion fails. -/
theorem Inv.handleClose (h : Inv w) (hlife : w.life = .alive) (hn : n < w.accepted)
    (hfree : w.closing (w.loop n) = none) :
    Ends Inv (fun e => e ≠ .deadServer)
      ({ w with closing := Function.update w.closing (w.loop n) (some n) }.handleClose n) := by
  have hatt := h.attached hlife
  cases hr : (w.conn n).handleClose with
  | error e =>
      show Ends _ _ (nested _ (w.conn n).handleClose >>= _)
      rw [hr]
      rintro ⟨⟩
  | ok r =>
      show Ends _ _ (nested _ (w.conn n).handleClose >>= _)
      rw [hr]
      have hstate := handleClose_state hr
      have hopen := handleClose_open hr
      have hremovals : w.removals n = 0 := by
        by_contra hne
        exact hopen (hatt.removing n hn (Nat.pos_of_ne_zero hne)).1
      have hhistory : w.history n = [.connectEstablished n] := by
        rcases h.history n hn with hhist | hhist
        · exact hhist
        · exact absurd (hatt.destroyed n hn hhist) hopen
      -- the connection first, then the callback that is due
      have hset : Inv (w.setConn n r.1) := h.setConn fun _ => hstate
      have hclosed : Closed (w.setConn n r.1) n := by
        refine ⟨hn, hlife, ?_, ?_, ?_⟩
        · rw [removals_setConn, hremovals]
        · rw [setConn_conn, if_pos rfl, hstate]
        · rw [history_setConn, hhistory]
      have hbegin := hset.beginClose hclosed
      rw [setConn_loop] at hbegin
      exact hbegin hfree

/-- `closeCallback_` on the base loop is the removal, and on another loop it posts it. -/
theorem Inv.closeCallback (h : Inv w) (hl : w.closing l = some n) :
    Ends Inv (fun e => e ≠ .deadServer)
      ({ w with closing := Function.update w.closing l none }.closeCallback l n) := by
  have hlife := alive_of_bound h (Or.inr ⟨l, n, hl⟩)
  have hn := (h.closing l n hl).1
  have hend := h.endClose hl
  have hremovals := removals_endClose h hl n
  rw [if_pos rfl] at hremovals
  unfold World.closeCallback
  apply Ends.check
  · intro hdead
    exact absurd (by rw [hlife]; rintro ⟨⟩) hdead
  intro _
  unfold World.runInLoop
  split
  · refine (hend.logRemoval n).removeConnectionInLoop ?_
    exact closed_of_removal h hlife hn rfl rfl rfl
      (Mail.history_direct_of_not isOf_removeConnectionInLoop) hremovals
  · exact hend.postRemoval (closed_of_removal h hlife hn rfl rfl rfl rfl hremovals)

/-- A loop calls the first of its functors. -/
theorem Inv.run (h : Inv w) (hq : w.mail.queue l = f :: rest) :
    Ends Inv (fun e => e ≠ .deadServer)
      ({ w with mail := w.mail.next l f rest }.runFunctor f) := by
  have htake := h.take hq
  have hmem : f ∈ w.mail.queue l := by
    rw [hq]
    exact List.mem_cons_self
  cases f with
  | connectEstablished n => exact htake.connectEstablished n
  | connectDestroyed n => exact htake.connectDestroyed n
  | removeConnectionInLoop n =>
      -- removals wait on the base loop only, and only while the server is there
      obtain ⟨hn, rfl⟩ := h.queued l _ hmem
      have hlife := alive_of_bound h (Or.inl ⟨n, hmem⟩)
      exact htake.removeConnectionInLoop (closed_of_removal h hlife hn rfl rfl rfl
        (history_take h hq n) (removals_take_self hq))

/-! ## Accepting a connection

The connection gets the next number, so all that is known of the others stays, and nothing has
been called or is due for it but its `connectEstablished`. -/

/-- `newConnection` behind its `runInLoop`, but for a call of `connectEstablished`. -/
def accepting (w : World L) (l : L) (sockfd : Nat) (mail : Mail L Functor) : World L :=
  { w.newConnection l sockfd with mail := mail }

variable {sockfd : Nat}

omit [DecidableEq L] in
theorem accepting_entry (hm : m < w.accepted) :
    (w.accepting l sockfd mail).entry m = w.entry m :=
  Function.update_of_ne (Nat.ne_of_lt hm) ..

omit [DecidableEq L] in
theorem accepting_entry_self : (w.accepting l sockfd mail).entry w.accepted =
    ⟨w.server.connName, l, TcpConnection.new sockfd⟩ := Function.update_self ..

omit [DecidableEq L] in
theorem accepting_loop (hm : m < w.accepted) : (w.accepting l sockfd mail).loop m = w.loop m :=
  congrArg Entry.loop (accepting_entry hm)

omit [DecidableEq L] in
theorem accepting_loop_self : (w.accepting l sockfd mail).loop w.accepted = l :=
  congrArg Entry.loop accepting_entry_self

omit [DecidableEq L] in
theorem accepting_conn (hm : m < w.accepted) : (w.accepting l sockfd mail).conn m = w.conn m :=
  congrArg Entry.conn (accepting_entry hm)

omit [DecidableEq L] in
/-- Nothing is called or due for a connection that has not been accepted. -/
theorem Inv.history_accepted (h : Inv w) (l : L) :
    w.mail.history (Functor.isOf w.accepted) l = [] := by
  apply List.eq_nil_iff_forall_not_mem.mpr
  intro f hf
  obtain ⟨hmem, hof⟩ := Mail.mem_history.mp hf
  rcases hmem with hlog | hqueue
  · exact Nat.lt_irrefl _ (h.logged _ ⟨f, hlog, hof⟩)
  · exact Nat.lt_irrefl _ ((h.queued l f hqueue).of_isOf hof).1

theorem accepting_history (ht : Told w l (.connectEstablished w.accepted) mail)
    (hm : m < w.accepted) : (w.accepting l sockfd mail).history m = w.history m := by
  rw [World.history, accepting_loop hm]
  exact ht.history_of_not (by simp [Nat.ne_of_gt hm])

theorem accepting_history_self (h : Inv w) (ht : Told w l (.connectEstablished w.accepted) mail) :
    (w.accepting l sockfd mail).history w.accepted = [.connectEstablished w.accepted] := by
  have hnil := h.history_accepted l
  have hqueue : (w.mail.queue l).filter (Functor.isOf w.accepted) = [] := by
    rw [Mail.history_eq] at hnil
    exact (List.append_eq_nil_iff.mp hnil).2
  have hhistory := ht.history_self (by simp) fun _ => hqueue
  rw [hnil, List.nil_append] at hhistory
  rw [World.history, accepting_loop_self]
  exact hhistory

theorem accepting_removals (ht : Told w l (.connectEstablished w.accepted) mail)
    (hm : m < w.accepted) : (w.accepting l sockfd mail).removals m = w.removals m := by
  rw [World.removals, accepting_loop hm]
  exact congrArg (· + _) (ht.count (by rintro ⟨⟩))

theorem accepting_removals_self (h : Inv w)
    (ht : Told w l (.connectEstablished w.accepted) mail) :
    (w.accepting l sockfd mail).removals w.accepted = 0 := by
  -- the number is new, so nothing is due for it
  have hcount : (mail.queue w.base).count (.removeConnectionInLoop w.accepted) = 0 := by
    rw [ht.count (by rintro ⟨⟩)]
    apply List.count_eq_zero_of_not_mem
    intro hmem
    exact Nat.lt_irrefl _ (h.queued _ _ hmem).1
  have hclosing : w.closing l ≠ some w.accepted := by
    intro heq
    exact Nat.lt_irrefl _ (h.closing _ _ heq).1
  rw [World.removals, accepting_loop_self]
  show (mail.queue w.base).count _ + (if w.closing l = some w.accepted then 1 else 0) = 0
  rw [hcount, if_neg hclosing]

/-- The new connection is in the table under its name, and nothing of it is to be removed. An
older one of the same name is dropped from the table, not from the histories. -/
theorem Attached.accept (hatt : w.Attached) (h : Inv w)
    (ht : Told w l (.connectEstablished w.accepted) mail) :
    (w.accepting l sockfd mail).Attached where
  removals := by
    intro m hm
    rcases Nat.lt_succ_iff_lt_or_eq.mp hm with hm | rfl
    · rw [accepting_removals ht hm]
      exact hatt.removals m hm
    -- nothing has been queued for the new connection
    · rw [accepting_removals_self h ht]
      exact Nat.zero_le 1
  removing := by
    intro m hm hpos
    rcases Nat.lt_succ_iff_lt_or_eq.mp hm with hm | rfl
    · rw [accepting_removals ht hm] at hpos
      rw [accepting_conn hm, accepting_history ht hm]
      exact hatt.removing m hm hpos
    · rw [accepting_removals_self h ht] at hpos
      cases hpos
  destroyed := by
    intro m hm hd
    rcases Nat.lt_succ_iff_lt_or_eq.mp hm with hm | rfl
    · rw [accepting_history ht hm] at hd
      rw [accepting_conn hm]
      exact hatt.destroyed m hm hd
    · rw [accepting_history_self h ht] at hd
      cases hd
  table := by
    intro name c hlookup
    have hlookup' : (w.server.connections.insert w.server.connName
        ⟨w.accepted, w.server.connName⟩).lookup name = some c := hlookup
    by_cases hname : name = w.server.connName
    -- the new entry takes the place of an older one of its name
    · subst hname
      rw [AList.lookup_insert] at hlookup'
      cases hlookup'
      refine ⟨Nat.lt_succ_self _, ?_, accepting_history_self h ht⟩
      rw [accepting_entry_self]
    · rw [AList.lookup_insert_ne hname] at hlookup'
      obtain ⟨hlt, hentry, hhist⟩ := hatt.table name c hlookup'
      refine ⟨Nat.lt_succ_of_lt hlt, ?_, ?_⟩
      · rw [accepting_entry hlt]
        exact hentry
      · rw [accepting_history ht hlt]
        exact hhist

/-- A new connection has its `connectEstablished` behind it, on the base loop, or due. -/
theorem Inv.accept (h : Inv w) (hlife : w.life = .alive) (sockfd : Nat)
    (ht : Told w l (.connectEstablished w.accepted) mail)
    (hbase : l = w.base → .connectEstablished w.accepted ∈ mail.log) :
    Inv (w.accepting l sockfd mail) where
  queued := by
    intro k f hf
    rcases ht.mem_queue hf with hf | ⟨rfl, rfl⟩
    · exact (h.queued k f hf).imp (Nat.le_succ _) (fun m hm => accepting_loop hm) rfl
    · exact ⟨Nat.lt_succ_self _, accepting_loop_self⟩
  logged := by
    rintro m ⟨f, hf, hof⟩
    rcases ht.mem_log hf with hf | rfl
    · exact Nat.lt_succ_of_lt (h.logged m ⟨f, hf, hof⟩)
    · rw [isOf_connectEstablished, decide_eq_true_eq] at hof
      exact hof ▸ Nat.lt_succ_self _
  closing := by
    intro k m hk
    obtain ⟨hm, hl⟩ := h.closing k m hk
    exact ⟨Nat.lt_succ_of_lt hm, (accepting_loop hm).trans hl⟩
  direct := by
    intro m hm hl
    rcases Nat.lt_succ_iff_lt_or_eq.mp hm with hm | rfl
    · rw [accepting_loop hm] at hl
      exact ht.mem_log_of_mem (h.direct m hm hl)
    · rw [accepting_loop_self] at hl
      exact hbase hl
  history := by
    intro m hm
    rcases Nat.lt_succ_iff_lt_or_eq.mp hm with hm | rfl
    · rw [accepting_history ht hm]
      exact h.history m hm
    · exact Or.inl (accepting_history_self h ht)
  attached _ := (h.attached hlife).accept h ht
  todo := by
    intro todo htodo
    exact absurd (hlife.symm.trans htodo) (by rintro ⟨⟩)
  quiet := fun hdead => absurd hlife hdead

/-! ## `~TcpServer` -/

omit [DecidableEq L] in
/-- Each connection is in the table once. -/
theorem Attached.items_nodup (h : w.Attached) : w.items.Nodup := by
  have hname : ∀ e ∈ w.server.connections.entries,
      (w.entry e.2.ordinal).name = e.1 ∧ w.server.connections.lookup e.1 = some e.2 := by
    intro e he
    have hlookup : w.server.connections.lookup e.1 = some e.2 :=
      AList.mem_lookup_iff.mpr he
    exact ⟨(h.table e.1 e.2 hlookup).2.1, hlookup⟩
  apply List.Nodup.map_on
  · intro e he e' he' heq
    obtain ⟨hn, hl⟩ := hname e he
    obtain ⟨hn', hl'⟩ := hname e' he'
    -- equal numbers have equal names, and a name is a key of the table
    have hkey : e.1 = e'.1 := by
      rw [← hn, ← hn', heq]
    rw [hkey, hl'] at hl
    cases e
    cases e'
    cases hkey
    cases hl
    rfl
  · exact w.server.connections.nodupKeys.nodup

omit [DecidableEq L] in
/-- `~TcpServer` begins, and goes through the connections that are in the table then. -/
theorem Inv.destroyServer (h : Inv w) (hlife : w.life = .alive) (hb : ¬ w.Bound) :
    Inv { w with life := .destructing w.items } := by
  have hatt := h.attached hlife
  refine ⟨?_, h.logged, h.closing, h.direct, h.history, ?_, ?_, fun _ => hb⟩
  · intro k f hf
    exact (h.queued k f hf).imp (Nat.le_refl _) (fun _ _ => rfl) rfl
  · rintro ⟨⟩
  · rintro todo ⟨⟩
    refine ⟨hatt.items_nodup, fun n hn => ?_⟩
    obtain ⟨e, he, rfl⟩ := List.mem_map.mp hn
    obtain ⟨hlt, -, hhist⟩ := hatt.table e.1 e.2 (AList.mem_lookup_iff.mpr he)
    exact ⟨hlt, hhist⟩

/-- `~TcpServer` comes to a connection, which it drops, and has `connectDestroyed` called on the
loop of the connection. -/
theorem Inv.destroyItem (h : Inv w) {todo : List Nat} (hlife : w.life = .destructing todo)
    (hn : n ∈ todo) : Ends Inv (fun e => e ≠ .deadServer)
      ({ w with life := .destructing (todo.erase n) }.runInLoop w.base (w.loop n)
        (.connectDestroyed n)) := by
  obtain ⟨hnodup, hall⟩ := h.todo todo hlife
  obtain ⟨hlt, hhist⟩ := hall n hn
  -- called at once on the base loop, posted to any other
  have hdue : ∀ mail, Told w (w.loop n) (.connectDestroyed n) mail →
      Inv { w with life := .destructing (todo.erase n), mail := mail } := by
    intro mail ht
    refine h.due ht hlt hhist (by rintro ⟨⟩) ?_ ?_
    · rintro _ ⟨⟩
      exact ⟨hnodup.erase n, hnodup.not_mem_erase, todo, hlife, fun m => List.mem_of_mem_erase⟩
    · rintro _ halive
      rw [hlife] at halive
      cases halive
  unfold World.runInLoop
  split
  · rename_i hbase
    exact (hdue _ (.called hbase.symm)).connectDestroyed n
  · exact hdue _ .posted

omit [DecidableEq L] in
/-- `~TcpServer` is over. Nothing bound to the server was due, and nothing becomes so. -/
theorem Inv.serverDestroyed (h : Inv w) (hlife : w.life ≠ .alive) :
    Inv { w with life := .destroyed } := by
  refine ⟨?_, h.logged, h.closing, h.direct, h.history, ?_, ?_, fun _ => h.quiet hlife⟩
  · intro k f hf
    exact (h.queued k f hf).imp (Nat.le_refl _) (fun _ _ => rfl) rfl
  · rintro ⟨⟩
  · rintro todo ⟨⟩

end World

end Zing.Net.ServerLoops
