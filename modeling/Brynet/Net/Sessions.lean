import Brynet.Net.Delivery

/-!
# What a session can rely on

The guarantees of `TcpService` for its sessions, in every reachable state of an
IO loop: the life cycle of a socket, the delivery of operations, and that output
is never left waiting for nobody.

Nothing here is an induction on runs any more.  `Good` holds in every reachable state; the
life cycle of a socket is read off from the phase its history has led to
(`Good.lifeCycle`), the delivery of an operation from the way that history splits around it,
and the output from `flushes_of_reachable`.
-/

namespace Brynet

open Transition Memory

namespace LifePhase

variable {sid : SessionId} {history pre post : List SocketEvent}

/-- Where a life may go after an event, and what was known before it. -/
theorem exists_split {event : SocketEvent} {phase : LifePhase}
    (hrun : lifeCycle.run .fresh (pre ++ event :: post) = some phase) :
    ∃ before after : LifePhase, before.Says pre ∧ before.next event = some after ∧
      lifeCycle.run after post = some phase := by
  rw [System.run_append, Option.bind_eq_some_iff] at hrun
  obtain ⟨before, hbefore, hrest⟩ := hrun
  rw [System.run, Option.bind_eq_some_iff] at hrest
  obtain ⟨after, hafter, hpost⟩ := hrest
  exact ⟨before, after, says_of_run hbefore, hafter, hpost⟩

/-- After the disconnect closure has started only its callback follows. -/
theorem run_leaving {phase : LifePhase} (hrun : lifeCycle.run (.leaving sid) post = some phase) :
    post <+: [.disConnectCallback] := by
  cases post with
  | nil => exact List.nil_prefix
  | cons event post =>
      rw [System.run, Option.bind_eq_some_iff] at hrun
      obtain ⟨after, hafter, hrest⟩ := hrun
      cases event with
      | disConnectCallback =>
          cases hafter
          cases post with
          | nil => exact List.prefix_refl _
          | cons other post =>
              rw [System.run, Option.bind_eq_some_iff] at hrest
              obtain ⟨_, hnever, -⟩ := hrest
              cases other <;> cases hnever
      | _ => cases hafter

end LifePhase

namespace IOLoop

variable {malloc : Allocator} {loopIndex : ℕ} {s : IOLoop} {ds : Ptr}

/-! ## The life cycle -/

/-- A session's life, and that nothing is left of it afterwards. -/
structure LifeCycle (s : IOLoop) (ds : Ptr) : Prop where
  /-- Enter once, data callbacks, at most one disconnect callback. -/
  callbacks : callbacks (s.historyOf ds) = [] ∨
    ∃ k tail, (tail = [] ∨ tail = [.disConnectCallback]) ∧
      callbacks (s.historyOf ds) = .enterCallback :: List.replicate k .dataCallback ++ tail
  /-- No data callback after the socket was closed. -/
  data_open : ∀ pre post, s.historyOf ds = pre ++ .dataCallback :: post → .closed ∉ pre
  /-- The disconnect closure is the last one, and no operation follows it. -/
  disConnect_last : ∀ pre post, s.historyOf ds = pre ++ .ran .disConnect :: post →
    ∀ event ∈ post, event = .disConnectCallback
  /-- From then on no closure is queued and no slot holds the socket. -/
  released : .ran .disConnect ∈ s.historyOf ds →
    s.procsOf ds = [] ∧ ∀ index, s.data.mDataSockets.get index ≠ some (some ds)
  /-- When the closure has returned the object is gone, with its timers. -/
  deleted : .ran .disConnect ∈ s.historyOf ds → s.pc ≠ .disConnectCallback ds →
    s.heap ds = none ∧ ∀ timer ∈ s.timers, timer.ds = ds → timer.mActive = false

theorem callbacks_of_phase {phase : LifePhase} {history : List SocketEvent}
    (h : phase.Says history) :
    callbacks history = [] ∨ ∃ k tail, (tail = [] ∨ tail = [.disConnectCallback]) ∧
      callbacks history = .enterCallback :: List.replicate k .dataCallback ++ tail := by
  cases phase with
  | fresh | refused | made =>
      subst h
      exact .inl rfl
  | opened sid =>
      obtain ⟨k, hk⟩ := h.1.callbacks
      exact .inr ⟨k, [], .inl rfl, by rw [hk, List.append_nil]⟩
  | shut sid =>
      obtain ⟨k, hk⟩ := h.callbacks
      exact .inr ⟨k, [], .inl rfl, by rw [hk, List.append_nil]⟩
  | leaving sid =>
      obtain ⟨pre, hpre, rfl⟩ := h
      obtain ⟨k, hk⟩ := hpre.callbacks
      refine .inr ⟨k, [], .inl rfl, ?_⟩
      rw [callbacks_concat, hk]
      rfl
  | ended sid =>
      obtain ⟨pre, hpre, rfl⟩ := h
      obtain ⟨k, hk⟩ := hpre.callbacks
      refine .inr ⟨k, [.disConnectCallback], .inr rfl, ?_⟩
      rw [callbacks, List.filter_append, ← callbacks, hk]
      rfl

/-- A connection whose disconnect closure has started is in its last phase. -/
theorem Good.closing_of_ran (h : s.Good) (hran : .ran .disConnect ∈ s.historyOf ds)
    {d : DataSocket} (hd : s.heap ds = some d) : (s.connection ds).activity = .closing := by
  obtain ⟨phase, hrun, hphase⟩ := h.lives ds
  have hsocket : (s.connection ds).socket = some d := hd
  have hsays := says_of_run hrun
  simp only [Connection.InPhase, hsocket] at hphase
  by_contra hactivity
  split at hphase
  · subst hphase
    have hnil : s.historyOf ds = [] := hsays
    simp [hnil] at hran
  · subst hphase
    simp only [Connection.enteredPhase, hactivity, if_false] at hsays
    split at hsays
    · exact hsays.1.present hran
    · exact hsays.present hran

theorem Good.lifeCycle (h : s.Good) (ds : Ptr) : LifeCycle s ds := by
  obtain ⟨phase, hrun, -⟩ := h.lives ds
  have hrun : Brynet.lifeCycle.run .fresh (s.historyOf ds) = some phase := hrun
  refine ⟨callbacks_of_phase (says_of_run hrun), ?_, ?_, ?_, ?_⟩
  -- A data callback happens in one phase only, in which nothing has closed the socket.
  · intro pre post hsplit
    rw [hsplit] at hrun
    obtain ⟨before, after, hsays, hnext, -⟩ := LifePhase.exists_split hrun
    cases before with
    | opened sid => exact hsays.2
    | _ => cases hnext
  · intro pre post hsplit event hevent
    rw [hsplit] at hrun
    obtain ⟨before, after, -, hnext, hrest⟩ := LifePhase.exists_split hrun
    cases before with
    | shut sid =>
        cases hnext
        exact List.mem_singleton.mp ((LifePhase.run_leaving hrest).subset hevent)
    | _ => cases hnext
  -- Once the disconnect closure ran, the object is closing or gone.
  · intro hran
    refine ⟨?_, ?_⟩
    · cases hd : s.heap ds with
      | none => exact ((h.inv.wf ds).gone hd).1
      | some d =>
          have hclosing := h.closing_of_ran hran hd
          have hposted := (h.inv.wf ds).posted d hd
          have hclosed : d.mSocket = none := by
            by_contra hopen
            exact (hposted.opened (Option.ne_none_iff_isSome.mp hopen)).2 hclosing
          rcases hposted.closed hclosed with ⟨-, hprocs⟩ | ⟨hno, -⟩
          · exact hprocs
          · exact absurd hclosing hno
    · intro index hget
      obtain ⟨hpc, d, sid, hd, -, -⟩ := h.inv.refs.slots index ds hget
      exact activity_ne_closing hpc (h.closing_of_ran hran hd)
  · intro hran hpc
    have hgone : s.heap ds = none := by
      by_contra hlive
      obtain ⟨d, hd⟩ := Option.ne_none_iff_exists'.mp hlive
      exact activity_ne_closing hpc (h.closing_of_ran hran hd)
    refine ⟨hgone, ?_⟩
    rintro timer htimer rfl
    by_contra hactive
    obtain ⟨d, hd, -⟩ := h.inv.refs.timers timer htimer (Bool.not_eq_false _ ▸ hactive)
    rw [hgone] at hd
    cases hd

/-- **Session life cycle.**  The callbacks of a socket are an enter, data
callbacks while it is open, and at most one disconnect; its disconnect closure is
the last one, nothing refers to the socket afterwards, and no deleted socket is
ever used. -/
theorem session_life_cycle (malloc : Allocator) (loopIndex : ℕ) (s : IOLoop)
    (h : (system malloc loopIndex).Reachable s) (ds : Ptr) :
    LifeCycle s ds ∧ s.fault ≠ some .useAfterFree :=
  ⟨(good_of_reachable h).lifeCycle ds, (good_of_reachable h).inv.fault⟩

/-- A socket enters, receives, is disconnected by its data callback and deleted. -/
theorem session_life_cycle_whole :
    ∃ s, (system .unlimited 0).Reachable s ∧
      s.historyOf 0 = [.makeID ⟨0, 99, 0⟩, .enterCallback, .dataCallback, .applied ⟨0, 99, 0⟩,
        .closed, .ran .disConnect, .disConnectCallback] ∧
      s.heap 0 = none ∧ LifeCycle s 0 ∧ s.fault ≠ some .useAfterFree := by
  have hrun : ((system .unlimited 0).run initial
      [.threadAdd 5 1024, .poll [], .entriesDone, .runAsync true, .userReturn, .asyncDone,
        .afterDone, .timersDone, .userReturn, .poll [⟨0, false, true, false⟩], .entry, .call,
        .recvResult (.data [1, 2, 3]), .userOp ⟨0, 99, 0⟩ .postDisConnect, .dataReturn 3, .call,
        .entriesDone, .asyncDone, .runAfter, .userReturn]).map
      (fun s => (s.historyOf 0, (s.heap 0).isNone)) =
      some ([.makeID ⟨0, 99, 0⟩, .enterCallback, .dataCallback, .applied ⟨0, 99, 0⟩,
        .closed, .ran .disConnect, .disConnectCallback], true) := by decide +kernel
  obtain ⟨s, hs, heq⟩ := Option.map_eq_some_iff.mp hrun
  simp only [Prod.mk.injEq, Option.isNone_iff_eq_none] at heq
  have hreach := System.reachable_of_run rfl hs
  exact ⟨s, hreach, heq.1, heq.2, session_life_cycle .unlimited 0 s hreach 0⟩

/-! ## Operations reach their session -/

theorem historyOf_split {pre post : List (Ptr × SocketEvent)} {event : SocketEvent}
    (hsplit : s.trace = pre ++ (ds, event) :: post) :
    ∃ before after, s.historyOf ds = before ++ event :: after ∧
      ∀ other, other ∈ before ↔ (ds, other) ∈ pre := by
  refine ⟨historyOf { s with trace := pre } ds, historyOf { s with trace := post } ds, ?_, ?_⟩
  · simp [historyOf, hsplit]
  · simp [historyOf]

/-- **No misdelivery.**  An operation on an id is applied to the one socket for
which `MakeID` returned that id, and only before the disconnect closure of that
socket has run. -/
theorem no_misdelivery (malloc : Allocator) (loopIndex : ℕ) (s : IOLoop)
    (h : (system malloc loopIndex).Reachable s) (hfew : s.data.mNextId < 2 ^ 31)
    (pre post : List (Ptr × SocketEvent)) (ds : Ptr) (sid : SessionId)
    (hsplit : s.trace = pre ++ (ds, .applied sid) :: post) :
    (ds, .makeID sid) ∈ pre ∧ (∀ owner, (owner, .makeID sid) ∈ s.trace → owner = ds) ∧
      (ds, .ran .disConnect) ∉ pre := by
  obtain ⟨before, after, hhistory, hbefore⟩ := historyOf_split hsplit
  obtain ⟨phase, hrun, -⟩ := (good_of_reachable h).lives ds
  have hrun : lifeCycle.run .fresh (s.historyOf ds) = some phase := hrun
  rw [hhistory] at hrun
  obtain ⟨earlier, later, hsays, hnext, -⟩ := LifePhase.exists_split hrun
  -- Only an entered socket that has not gone can be reached, and by its own id.
  have hactive : LifePhase.Active sid before := by
    cases earlier with
    | opened made =>
        simp only [LifePhase.next, Option.ite_none_right_eq_some] at hnext
        exact hnext.1 ▸ hsays.1
    | shut made =>
        simp only [LifePhase.next, Option.ite_none_right_eq_some] at hnext
        exact hnext.1 ▸ hsays
    | _ => cases hnext
  have hmade : (ds, .makeID sid) ∈ pre := by
    rw [← hbefore, ← mem_madeIDs, hactive.ids]
    exact List.mem_singleton_self _
  refine ⟨hmade, ?_, ?_⟩
  · intro owner howner
    have hmem : (ds, SocketEvent.makeID sid) ∈ s.trace := by
      rw [hsplit]
      exact List.mem_append_left _ hmade
    have hbound : s.ledger.data.mNextId ≤ 2 ^ 32 := hfew.le.trans (by decide)
    exact (ids_of_reachable h).socket_unique hbound (mem_madeIn.mpr hmem) (mem_madeIn.mpr howner)
  · rw [← hbefore]
    exact hactive.present

/-- Two sockets in a row get slot 99; the operation on the second id reaches the
second socket. -/
theorem no_misdelivery_reused_slot :
    ∃ s, (system .unlimited 0).Reachable s ∧ ∃ pre,
      s.trace = pre ++ [(1, .applied ⟨0, 99, 1⟩)] ∧ (0, .makeID ⟨0, 99, 0⟩) ∈ pre ∧
      (1, .makeID ⟨0, 99, 1⟩) ∈ pre ∧
      (∀ owner, (owner, .makeID ⟨0, 99, 1⟩) ∈ s.trace → owner = 1) ∧
      (1, .ran .disConnect) ∉ pre := by
  have hrun : ((system .unlimited 0).run initial
      [.threadAdd 5 1024, .poll [], .entriesDone, .runAsync true,
        .userOp ⟨0, 99, 0⟩ .postDisConnect, .userReturn, .asyncDone, .runAfter, .userReturn,
        .afterDone, .timersDone, .userAdd 6 1024 true, .userOp ⟨0, 99, 0⟩ .postShutdown,
        .userOp ⟨0, 99, 1⟩ .postShutdown]).map
      (fun s => (s.trace, s.data.mNextId)) =
      some ([(0, .makeID ⟨0, 99, 0⟩), (0, .enterCallback), (0, .applied ⟨0, 99, 0⟩),
        (0, .closed), (0, .ran .disConnect), (0, .disConnectCallback), (1, .makeID ⟨0, 99, 1⟩),
        (1, .enterCallback), (1, .applied ⟨0, 99, 1⟩)], 2) := by decide
  obtain ⟨s, hs, heq⟩ := Option.map_eq_some_iff.mp hrun
  rw [Prod.mk.injEq] at heq
  have hreach := System.reachable_of_run rfl hs
  refine ⟨s, hreach, [(0, .makeID ⟨0, 99, 0⟩), (0, .enterCallback), (0, .applied ⟨0, 99, 0⟩),
    (0, .closed), (0, .ran .disConnect), (0, .disConnectCallback), (1, .makeID ⟨0, 99, 1⟩),
    (1, .enterCallback)], heq.1, by simp, ?_⟩
  exact no_misdelivery .unlimited 0 s hreach (by rw [heq.2]; decide) _ [] 1 _ heq.1

/-! ## Output is not stuck -/

theorem flushes_of_reachable (h : (system malloc loopIndex).Reachable s) (ds : Ptr) :
    (s.connection ds).Flushes :=
  connection_invariant Connection.flushes_absent
    (fun _ _ hwf hflushes hstep => Connection.Flushes.step hflushes hwf hstep) h ds

/-- **No stuck output.**  At most one flush closure of a socket is queued.  If the
socket is open, was not shut down and has output waiting while the loop thread is
not flushing it, then that closure is queued, or the kernel will report the
socket writable. -/
theorem output_not_stuck (malloc : Allocator) (loopIndex : ℕ) (s : IOLoop)
    (h : (system malloc loopIndex).Reachable s) (ds : Ptr) :
    (s.procsOf ds).count .flush ≤ 1 ∧
      ∀ d, s.heap ds = some d → d.mSocket.isSome = true → d.shutWr = false →
        d.mSendList ≠ [] → (s.pc.activity ds).isFlushing = false →
        d.mIsPostFlush = true ∧ (s.procsOf ds).count .flush = 1 ∨
          d.mCanWrite = false ∧ d.epollOut = true := by
  have hwf := (inv_of_reachable h).wf ds
  have hcount : ∀ d, s.heap ds = some d →
      (s.procsOf ds).count .flush = if d.mIsPostFlush then 1 else 0 :=
    fun d hd => (hwf.posted d hd).flushes
  refine ⟨?_, ?_⟩
  · cases hd : s.heap ds with
    | none =>
        have hprocs : s.procsOf ds = [] := (hwf.gone hd).1
        simp [hprocs]
    | some d =>
        rw [hcount d hd]
        split <;> decide
  · intro d hd hopen hshut hlist hidle
    have hawake := flushes_of_reachable h ds d hd hopen hshut
    rcases hawake.waiting hlist hidle with hpost | hcan
    · left
      exact ⟨hpost, by rw [hcount d hd, if_pos hpost]⟩
    · right
      exact ⟨hcan, hawake.armed hcan⟩

/-- A send from the enter callback waits for its flush closure. -/
theorem output_not_stuck_first_send :
    ∃ s d, (system .unlimited 0).Reachable s ∧ s.heap 0 = some d ∧ d.mSendList ≠ [] ∧
      (d.mIsPostFlush = true ∧ (s.procsOf 0).count .flush = 1 ∨
        d.mCanWrite = false ∧ d.epollOut = true) := by
  have hrun : ((system .unlimited 0).run initial
      [.threadAdd 5 1024, .poll [], .entriesDone, .runAsync true,
        .userOp ⟨0, 99, 0⟩ (.send [1, 2, 3] false)]).bind
      (fun s => (s.heap 0).map fun d => (d.mSocket.isSome, d.shutWr, d.mSendList,
        (s.pc.activity 0).isFlushing)) =
      some (true, false, [⟨[1, 2, 3], 3, false⟩], false) := by decide
  obtain ⟨s, hs, heq⟩ := Option.bind_eq_some_iff.mp hrun
  obtain ⟨d, hd, heq⟩ := Option.map_eq_some_iff.mp heq
  simp only [Prod.mk.injEq] at heq
  obtain ⟨hopen, hshut, hlist, hidle⟩ := heq
  have hreach := System.reachable_of_run rfl hs
  have hne : d.mSendList ≠ [] := by simp [hlist]
  exact ⟨s, d, hreach, hd, hne,
    (output_not_stuck .unlimited 0 s hreach 0).2 d hd hopen hshut hne hidle⟩

end IOLoop

end Brynet
