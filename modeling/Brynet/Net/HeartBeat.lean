import Brynet.Net.SoundNext

/-!
# The heartbeat of a session

The ping timers of the sockets of an IO loop.  A socket whose last `setHeartBeat`
was not zero should have one active timer in the `TimerMgr` while it is open.
Only `setHeartBeat`, the expiry of a timer and the deletion of a socket touch the
timers; everything else is a `Frame` for them.

`PingCheck` is to set the next timer when data has come in since the last check.
But it runs inside the callback of the timer that has expired, which `schedule`
still holds, so the weak pointer `mTimer` can be locked and `startPingCheckTimer`
does nothing.  The socket then stays without a timer.

`Beats` is the invariant of the runs in which no timer expires for a socket that has
been fed.  It says which timer is whose, by its number, since the numbers are never
used again:

* a `Frame` keeps it (`Beats.frame`), and all but three kinds of steps are one;
* `setHeartBeat` cancels the timer of the socket and sets another (`Beats.reset`,
  `Beats.arm`);
* an expiry takes the timer out and closes the socket (`Beats.pingCheck`);
* `delete` cancels the timer (`Beats.delete`).
-/

namespace Brynet

open MachineInt Memory Transition

namespace DataSocket

variable {d d' : DataSocket}

/-- The heartbeat of the socket is as it was, and it was not opened again. -/
structure Steady (d d' : DataSocket) : Prop where
  timer : d'.mTimer = d.mTimer
  checkTime : d'.mCheckTime = d.mCheckTime
  opened : d'.mSocket.isSome = true → d.mSocket.isSome = true

theorem Steady.refl (d : DataSocket) : Steady d d := ⟨rfl, rfl, id⟩

theorem Steady.trans {d'' : DataSocket} (h : Steady d d') (h' : Steady d' d'') : Steady d d'' :=
  ⟨h'.timer.trans h.timer, h'.checkTime.trans h.checkTime, fun hopen => h.opened (h'.opened hopen)⟩

theorem Quiet.steady (h : Quiet d d') : Steady d d' := by
  obtain ⟨buffer, recvData, rfl⟩ := h
  exact ⟨rfl, rfl, id⟩

theorem steady_runAfterFlush (d : DataSocket) : Steady d d.runAfterFlush.1 := by
  rw [runAfterFlush_fst]
  exact ⟨rfl, rfl, id⟩

theorem steady_sendInLoop (d : DataSocket) (packet : List UInt8) (callback : Bool) :
    Steady d (d.sendInLoop packet callback).1 := by
  have hpushed (list : List PendingPacket) : Steady d { d with mSendList := list } := ⟨rfl, rfl, id⟩
  exact (hpushed _).trans (steady_runAfterFlush _)

theorem steady_canSend (d : DataSocket) : Steady d d.canSend.1 := by
  refine Steady.trans ?_ (steady_runAfterFlush _)
  unfold removeCheckWrite
  split <;> exact ⟨rfl, rfl, id⟩

theorem steady_closeSocket (d : DataSocket) : Steady d d.closeSocket := by
  unfold closeSocket
  split
  · exact ⟨rfl, rfl, fun hopen => by cases hopen⟩
  · exact .refl d

theorem steady_onClose (d : DataSocket) : Steady d d.onClose.1 := by
  unfold onClose
  split
  · exact .refl d
  · have hclose := steady_closeSocket d
    exact ⟨hclose.timer, hclose.checkTime, hclose.opened⟩

theorem steady_procCloseInLoop (d : DataSocket) : Steady d d.procCloseInLoop.1 := by
  unfold procCloseInLoop
  split
  · exact .refl d
  · exact steady_onClose d

theorem steady_postShutdown (d : DataSocket) : Steady d d.postShutdown.1 := by
  unfold postShutdown
  split <;> exact .refl d

theorem steady_procShutdownInLoop (d : DataSocket) : Steady d d.procShutdownInLoop := by
  unfold procShutdownInLoop
  split <;> exact ⟨rfl, rfl, id⟩

theorem steady_shrinkFront (d : DataSocket) (tmpLen : ℕ) : Steady d (d.shrinkFront tmpLen) := by
  unfold shrinkFront
  split <;> exact ⟨rfl, rfl, id⟩

end DataSocket

namespace IOLoop

variable {s s' : IOLoop} {ds : Ptr} {d : DataSocket} {malloc : Allocator} {loopIndex : ℕ}

/-! ## Steps that leave the timers alone -/

/-- The timers are the same, the objects are there with their heartbeat, and new
ones have none. -/
structure Frame (s s' : IOLoop) : Prop where
  timers : s'.timers = s.timers
  nextTimer : s'.nextTimer = s.nextTimer
  kept : ∀ ds d, s.heap ds = some d → ∃ d', s'.heap ds = some d' ∧ d.Steady d'
  created : ∀ ds d', s.heap ds = none → s'.heap ds = some d' →
    d'.mTimer = none ∧ d'.mCheckTime = 0

theorem Frame.of_heap (hheap : s'.heap = s.heap) (htimers : s'.timers = s.timers)
    (hnext : s'.nextTimer = s.nextTimer) : Frame s s' where
  timers := htimers
  nextTimer := hnext
  kept ds d hd := ⟨d, by rw [hheap, hd], .refl d⟩
  created ds d' hnone hd' := by
    rw [hheap, hnone] at hd'
    cases hd'

theorem Frame.trans {mid : IOLoop} (h : Frame s mid) (h' : Frame mid s') : Frame s s' where
  timers := h'.timers.trans h.timers
  nextTimer := h'.nextTimer.trans h.nextTimer
  kept ds d hd := by
    obtain ⟨e, he, hsteady⟩ := h.kept ds d hd
    obtain ⟨d', hd', hsteady'⟩ := h'.kept ds e he
    exact ⟨d', hd', hsteady.trans hsteady'⟩
  created ds d' hnone hd' := by
    cases hmid : mid.heap ds with
    | none => exact h'.created ds d' hmid hd'
    | some e =>
        obtain ⟨htimer, hcheck⟩ := h.created ds e hnone hmid
        obtain ⟨d'', hd'', hsteady⟩ := h'.kept ds e hmid
        rw [hd', Option.some.injEq] at hd''
        subst hd''
        exact ⟨hsteady.timer.trans htimer, hsteady.checkTime.trans hcheck⟩

theorem Frame.goto (h : Frame s s') (pc : IOLoopPc) : Frame s (s'.goto pc) :=
  h.trans (.of_heap rfl rfl rfl)

theorem Frame.log (h : Frame s s') (ds : Ptr) (event : SocketEvent) : Frame s (s'.log ds event) :=
  h.trans (.of_heap rfl rfl rfl)

theorem Frame.update {d' : DataSocket} (hd : s.heap ds = some d) (hsteady : d.Steady d')
    (hheap : s'.heap = Function.update s.heap ds (some d')) (htimers : s'.timers = s.timers)
    (hnext : s'.nextTimer = s.nextTimer) : Frame s s' where
  timers := htimers
  nextTimer := hnext
  kept other e he := by
    rw [hheap]
    by_cases heq : other = ds
    · subst heq
      rw [hd, Option.some.injEq] at he
      subst he
      exact ⟨d', Function.update_self .., hsteady⟩
    · exact ⟨e, by rw [Function.update_of_ne heq, he], .refl e⟩
  created other e hnone he := by
    rw [hheap] at he
    by_cases heq : other = ds
    · rw [heq, hd] at hnone
      cases hnone
    · rw [Function.update_of_ne heq, hnone] at he
      cases he

theorem frame_store (hd : s.heap ds = some d) {result : DataSocket × List AfterProc}
    (hsteady : d.Steady result.1) : Frame s (s.store ds d result) :=
  .update hd hsteady rfl rfl rfl

theorem frame_fault (fault : Option Fault) : Frame s { s with fault := fault } :=
  .of_heap rfl rfl rfl

theorem frame_withSocket {f : DataSocket → IOLoop}
    (h : ∀ d, s.heap ds = some d → Frame s (f d)) : Frame s (s.withSocket ds f) := by
  unfold withSocket
  split
  next d hd => exact h d hd
  next => exact frame_fault _

theorem frame_callSocket {f : DataSocket → DataSocket × List AfterProc}
    (h : ∀ d : DataSocket, d.Steady (f d).1) : Frame s (s.callSocket ds f) :=
  frame_withSocket fun d hd => frame_store hd (h d)

theorem frame_channelCall (s : IOLoop) (ds : Ptr) (calls : List ChannelCall) :
    Frame s (s.channelCall ds calls) := by
  match calls with
  | [] => exact .of_heap rfl rfl rfl
  | .canRecv :: _ => exact .of_heap rfl rfl rfl
  | .canSend :: _ => exact (frame_callSocket DataSocket.steady_canSend).goto _
  | .onClose :: _ => exact (frame_callSocket DataSocket.steady_onClose).goto _

theorem frame_afterRecv (hd : s.heap ds = some d) (rest : List ChannelCall) (tryRecvLen : ℕ)
    (r : RecvResult) : Frame s (s.afterRecv malloc ds d rest tryRecvLen r) := by
  cases r with
  | data bytes =>
      simp only [afterRecv]
      split
      next => exact frame_fault _
      next arrived harrived =>
        have hsteady := (DataSocket.quiet_recvArrived harrived).steady
        split
        · exact ((frame_store hd hsteady).log _ _).goto _
        · have hadjust := (DataSocket.quiet_recvAdjust arrived).steady
          exact (frame_store hd (hsteady.trans hadjust)).goto _
  | wouldBlock => exact .of_heap rfl rfl rfl
  | eof | error => exact (frame_store hd d.steady_procCloseInLoop).goto _

theorem frame_flush (s : IOLoop) (ds : Ptr) : Frame s (s.flush ds) := by
  refine frame_withSocket fun d hd => ?_
  have hstore : Frame s (s.store ds d ({ d with mIsPostFlush := false }, [])) :=
    frame_store hd ⟨rfl, rfl, id⟩
  dsimp only
  split
  · exact hstore
  · exact hstore.goto _

theorem frame_disConnect (s : IOLoop) (ds : Ptr) : Frame s (s.disConnect ds) := by
  refine frame_withSocket fun d hd => ?_
  split <;> exact .of_heap rfl rfl rfl

theorem frame_runAfterProc (s : IOLoop) (proc : LoopProc) : Frame s (s.runAfterProc proc) := by
  have hlog (ds : Ptr) (event : SocketEvent) : Frame s (s.log ds event) := .of_heap rfl rfl rfl
  match proc with
  | .socket ds .flush => exact (hlog ds _).trans (frame_flush _ ds)
  | .socket ds .shutdown =>
      exact (hlog ds _).trans (frame_callSocket DataSocket.steady_procShutdownInLoop)
  | .socket ds .disConnect => exact (hlog ds _).trans (frame_disConnect _ ds)
  | .user => exact .of_heap rfl rfl rfl

theorem frame_afterWritev (hd : s.heap ds = some d) (r : WritevResult) :
    Frame s (s.afterWritev ds d r) := by
  cases r with
  | accepted count => exact .of_heap rfl rfl rfl
  | wouldBlock =>
      have hblock : d.Steady d.blockWrite := ⟨rfl, rfl, id⟩
      exact (frame_store hd hblock).goto _
  | error => exact (frame_store hd d.steady_procCloseInLoop).goto _

theorem frame_afterErase (hd : s.heap ds = some d) (full : Bool) :
    Frame s (s.afterErase ds d full) := by
  have hblock : d.Steady d.blockWrite := ⟨rfl, rfl, id⟩
  unfold afterErase
  split
  · exact .of_heap rfl rfl rfl
  · split
    · exact frame_fault _
    · exact (frame_store hd hblock).goto _

theorem frame_eraseTurn (s : IOLoop) (ds : Ptr) (tmpLen : ℕ) (full : Bool) :
    Frame s (s.eraseTurn ds tmpLen full) := by
  refine frame_withSocket fun d hd => ?_
  split
  next => exact frame_afterErase hd full
  next packet rest hlist =>
    split
    · have hstore : Frame s ((s.store ds d (d.shrinkFront tmpLen, [])).goto (.erase ds 0 full)) :=
        (frame_store hd (d.steady_shrinkFront tmpLen)).goto _
      exact hstore.trans (frame_afterErase (Function.update_self ..) full)
    · split
      · exact .of_heap rfl rfl rfl
      · exact (frame_store hd ⟨rfl, rfl, id⟩).goto _

/-- A new object has no timer. -/
theorem frame_newSocket (inv : s.Inv) {socket : Sock} {maxRecvBufferSize : ℕ} {result : Ptr × IOLoop}
    (h : s.newSocket malloc socket maxRecvBufferSize = some result) : Frame s result.2 := by
  unfold newSocket at h
  split at h
  · cases h
  · obtain ⟨d, hnew, rfl⟩ := Option.map_eq_some_iff.mp h
    have hfresh : s.heap s.nextPtr = none :=
      congrArg Connection.socket (inv.refs.fresh s.nextPtr (Nat.le_refl _))
    have hnone : d.mTimer = none ∧ d.mCheckTime = 0 := by
      unfold DataSocket.new at hnew
      obtain ⟨buffer, -, rfl⟩ := Option.map_eq_some_iff.mp hnew
      exact ⟨rfl, rfl⟩
    refine ⟨rfl, rfl, ?_, ?_⟩
    · intro other e he
      have hne : other ≠ s.nextPtr := by
        rintro rfl
        rw [hfresh] at he
        cases he
      exact ⟨e, by rw [← he]; exact Function.update_of_ne hne .., .refl e⟩
    · intro other e hother he
      by_cases heq : other = s.nextPtr
      · subst heq
        simp only [Function.update_self, Option.some.injEq] at he
        exact he ▸ hnone
      · simp only [Function.update_of_ne heq, hother] at he
        cases he

theorem frame_enterCallback (hd : s.heap ds = some d)
    (h : s.enterCallback loopIndex ds d = some s') : Frame s s' := by
  obtain ⟨⟨sid, data⟩, -, rfl⟩ := Option.map_eq_some_iff.mp h
  have hsteady : d.Steady { d with mEventLoop := true, mUD := some sid, mDataCallback := true } :=
    ⟨rfl, rfl, id⟩
  exact .update hd hsteady rfl rfl rfl

/-! ## The timers of the sockets -/

/-- Timers have numbers of their own, a weak pointer points to a timer of its own
socket, an active timer is the one its socket points to, and every open socket
with a heartbeat has one. -/
structure Beats (s : IOLoop) : Prop where
  fresh : ∀ timer ∈ s.timers, timer.id < s.nextTimer
  nodup : (s.timers.map PingTimer.id).Nodup
  made : ∀ ds d id, s.heap ds = some d → d.mTimer = some id → id < s.nextTimer
  mine : ∀ ds d, s.heap ds = some d → ∀ timer ∈ s.timers, d.mTimer = some timer.id →
    timer.ds = ds
  live : ∀ timer ∈ s.timers, timer.mActive = true →
    ∃ d, s.heap timer.ds = some d ∧ d.mTimer = some timer.id ∧ d.mCheckTime ≠ 0
  armed : ∀ ds d, s.heap ds = some d → d.mSocket.isSome = true → d.mCheckTime ≠ 0 →
    ∃ timer ∈ s.timers, timer.ds = ds ∧ timer.mActive = true

theorem beats_initial : initial.Beats where
  fresh := by simp [initial]
  nodup := by simp [initial]
  made := by simp [initial]
  mine := by simp [initial]
  live := by simp [initial]
  armed := by simp [initial]

theorem Beats.frame (h : s.Beats) (hframe : Frame s s') : s'.Beats := by
  -- Every object that has a timer or a check time was there before.
  have hold : ∀ ds d', s'.heap ds = some d' → d'.mTimer ≠ none ∨ d'.mCheckTime ≠ 0 →
      ∃ d, s.heap ds = some d ∧ d.Steady d' := by
    intro ds d' hd' hsome
    cases hd : s.heap ds with
    | none =>
        obtain ⟨htimer, hcheck⟩ := hframe.created ds d' hd hd'
        simp [htimer, hcheck] at hsome
    | some d =>
        obtain ⟨d'', hd'', hsteady⟩ := hframe.kept ds d hd
        rw [hd', Option.some.injEq] at hd''
        exact ⟨d, rfl, hd'' ▸ hsteady⟩
  refine ⟨?_, ?_, ?_, ?_, ?_, ?_⟩
  · rw [hframe.timers, hframe.nextTimer]
    exact h.fresh
  · rw [hframe.timers]
    exact h.nodup
  · intro ds d' id hd' hid
    obtain ⟨d, hd, hsteady⟩ := hold ds d' hd' (.inl (by simp [hid]))
    rw [hframe.nextTimer]
    exact h.made ds d id hd (hsteady.timer ▸ hid)
  · intro ds d' hd' timer hmem hid
    obtain ⟨d, hd, hsteady⟩ := hold ds d' hd' (.inl (by simp [hid]))
    exact h.mine ds d hd timer (hframe.timers ▸ hmem) (hsteady.timer ▸ hid)
  · intro timer hmem hactive
    obtain ⟨d, hd, hid, hcheck⟩ := h.live timer (hframe.timers ▸ hmem) hactive
    obtain ⟨d', hd', hsteady⟩ := hframe.kept timer.ds d hd
    exact ⟨d', hd', hsteady.timer.trans hid, hsteady.checkTime ▸ hcheck⟩
  · intro ds d' hd' hopen hcheck
    obtain ⟨d, hd, hsteady⟩ := hold ds d' hd' (.inr hcheck)
    rw [hframe.timers]
    exact h.armed ds d hd (hsteady.opened hopen) (hsteady.checkTime ▸ hcheck)

/-- Two active timers of one socket are the same. -/
theorem Beats.unique (h : s.Beats) {first second : PingTimer} (hfirst : first ∈ s.timers)
    (hsecond : second ∈ s.timers) (hactive : first.mActive = true)
    (hactive' : second.mActive = true) (hds : first.ds = second.ds) : first = second := by
  obtain ⟨d, hd, hid, -⟩ := h.live first hfirst hactive
  obtain ⟨d', hd', hid', -⟩ := h.live second hsecond hactive'
  rw [hds, hd', Option.some.injEq] at hd
  subst hd
  rw [hid', Option.some.injEq] at hid
  exact List.inj_on_of_nodup_map h.nodup hfirst hsecond hid.symm

/-! ## Cancelling, setting and deleting -/

theorem timers_timerReset (s : IOLoop) (d : DataSocket) :
    (s.timerReset d).timers = (s.cancelTimer d.mTimer).timers := by
  unfold timerReset
  split
  next => rfl
  next hdead =>
    have hsame : ∀ timer ∈ s.timers,
        (if some timer.id = d.mTimer then { timer with mActive := false } else timer) = timer := by
      intro timer hmem
      rw [if_neg]
      intro hid
      exact hdead (hid ▸ timerAlive_of_mem hmem none)
    rw [cancelTimer, List.map_congr_left hsame, List.map_id']

theorem nextTimer_timerReset (s : IOLoop) (d : DataSocket) :
    (s.timerReset d).nextTimer = s.nextTimer := by
  unfold timerReset
  split <;> rfl

theorem map_id_cancelTimer (s : IOLoop) (id : Option ℕ) :
    (s.cancelTimer id).timers.map PingTimer.id = s.timers.map PingTimer.id := by
  rw [cancelTimer, List.map_map]
  apply List.map_congr_left
  intro timer _
  simp only [Function.comp_apply]
  split <;> rfl

theorem exists_of_mem_cancelTimer {timer : PingTimer} {id : Option ℕ}
    (hmem : timer ∈ (s.cancelTimer id).timers) :
    ∃ old ∈ s.timers, old.id = timer.id ∧ old.ds = timer.ds := by
  obtain ⟨old, hold, rfl⟩ := List.mem_map.mp hmem
  refine ⟨old, hold, ?_⟩
  split <;> exact ⟨rfl, rfl⟩

/-- The timer of `d` was cancelled, and its object has no heartbeat or is gone. -/
theorem Beats.reset (h : s.Beats) (hd : s.heap ds = some d) {left : Option DataSocket}
    (hleft : ∀ d', left = some d' →
      (d'.mTimer = none ∨ d'.mTimer = d.mTimer) ∧ d'.mCheckTime = 0) :
    Beats { s.timerReset d with heap := Function.update s.heap ds left } := by
  have hids := map_id_cancelTimer s d.mTimer
  have hlive : ∀ timer ∈ s.timers, timer.mActive = true →
      ∃ e, s.heap timer.ds = some e ∧ e.mTimer = some timer.id := by
    intro timer hmem hactive
    obtain ⟨e, he, hid, -⟩ := h.live timer hmem hactive
    exact ⟨e, he, hid⟩
  -- The other sockets keep their timers.
  have hkept : ∀ timer ∈ s.timers, timer.ds ≠ ds → timer ∈ (s.timerReset d).timers := by
    intro timer hmem hne
    rw [timers_timerReset]
    refine List.mem_map.mpr ⟨timer, hmem, if_neg ?_⟩
    intro hid
    exact hne (h.mine ds d hd timer hmem hid.symm)
  have horigin : ∀ timer ∈ (s.timerReset d).timers,
      ∃ old ∈ s.timers, old.id = timer.id ∧ old.ds = timer.ds := by
    intro timer hmem
    rw [timers_timerReset] at hmem
    exact exists_of_mem_cancelTimer hmem
  -- What an object of the new state points to, it pointed to before.
  have hpoints : ∀ other e id, Function.update s.heap ds left other = some e →
      e.mTimer = some id → ∃ e', s.heap other = some e' ∧ e'.mTimer = some id := by
    intro other e id he hid
    by_cases heq : other = ds
    · subst heq
      rw [Function.update_self] at he
      rcases (hleft e he).1 with hnone | hsame
      · rw [hnone] at hid
        cases hid
      · exact ⟨d, hd, hsame ▸ hid⟩
    · rw [Function.update_of_ne heq] at he
      exact ⟨e, he, hid⟩
  -- The six parts of `Beats`, in their order.
  refine ⟨?_, ?_, ?_, ?_, ?_, ?_⟩
  · intro timer hmem
    obtain ⟨old, hold, hid, -⟩ := horigin timer hmem
    simp only [nextTimer_timerReset]
    exact hid ▸ h.fresh old hold
  · simp only [timers_timerReset, hids]
    exact h.nodup
  · intro other e id he hid
    obtain ⟨e', he', hid'⟩ := hpoints other e id he hid
    simp only [nextTimer_timerReset]
    exact h.made other e' id he' hid'
  · intro other e he timer hmem hid
    obtain ⟨old, hold, hsame, hds⟩ := horigin timer hmem
    obtain ⟨e', he', hid'⟩ := hpoints other e _ he hid
    exact hds ▸ h.mine other e' he' old hold (hsame ▸ hid')
  · intro timer hmem hactive
    obtain ⟨hold, hne⟩ := mem_timerReset hlive hd hmem hactive
    obtain ⟨e, he, hid⟩ := h.live timer hold hactive
    exact ⟨e, by rw [← he]; exact Function.update_of_ne hne .., hid⟩
  · intro other e he hopen hcheck
    by_cases heq : other = ds
    · subst heq
      simp only [Function.update_self] at he
      exact absurd (hleft e he).2 hcheck
    · simp only [Function.update_of_ne heq] at he
      obtain ⟨timer, hmem, hds, hactive⟩ := h.armed other e he hopen hcheck
      exact ⟨timer, hkept timer hmem (hds ▸ heq), hds, hactive⟩

/-- A timer is set for a socket that has none. -/
theorem Beats.arm (h : s.Beats) (hd : s.heap ds = some d) (hzero : d.mCheckTime = 0)
    {checkTime : ℕ} (hcheck : checkTime ≠ 0) :
    Beats { s with
      heap := Function.update s.heap ds
        (some { d with mCheckTime := checkTime, mTimer := some s.nextTimer })
      timers := s.timers ++ [⟨s.nextTimer, ds, true⟩]
      nextTimer := s.nextTimer + 1 } := by
  -- No active timer is for the socket, as its heartbeat was zero.
  have hidle : ∀ timer ∈ s.timers, timer.mActive = true → timer.ds ≠ ds := by
    rintro timer hmem hactive rfl
    obtain ⟨e, he, -, hne⟩ := h.live timer hmem hactive
    rw [hd, Option.some.injEq] at he
    exact hne (he ▸ hzero)
  have htimers : ∀ {timer}, timer ∈ s.timers ++ [⟨s.nextTimer, ds, true⟩] →
      timer ∈ s.timers ∨ timer = ⟨s.nextTimer, ds, true⟩ := by
    intro timer hmem
    simpa using hmem
  have hheap : ∀ {other e}, Function.update s.heap ds
      (some { d with mCheckTime := checkTime, mTimer := some s.nextTimer }) other = some e →
      other = ds ∧ e = { d with mCheckTime := checkTime, mTimer := some s.nextTimer } ∨
        other ≠ ds ∧ s.heap other = some e := by
    intro other e he
    by_cases heq : other = ds
    · subst heq
      rw [Function.update_self, Option.some.injEq] at he
      exact .inl ⟨rfl, he.symm⟩
    · rw [Function.update_of_ne heq] at he
      exact .inr ⟨heq, he⟩
  refine ⟨?_, ?_, ?_, ?_, ?_, ?_⟩
  · intro timer hmem
    rcases htimers hmem with hold | rfl
    · exact Nat.lt_succ_of_lt (h.fresh timer hold)
    · exact Nat.lt_succ_self _
  · simp only [List.map_append, List.map_cons, List.map_nil]
    rw [List.nodup_append_comm]
    refine List.nodup_cons.mpr ⟨?_, h.nodup⟩
    intro hmem
    obtain ⟨timer, htimer, hid⟩ := List.mem_map.mp hmem
    exact absurd (h.fresh timer htimer) (by omega)
  · intro other e id he hid
    rcases hheap he with ⟨rfl, rfl⟩ | ⟨-, hold⟩
    · exact Option.some.inj hid ▸ Nat.lt_succ_self _
    · exact Nat.lt_succ_of_lt (h.made other e id hold hid)
  · intro other e he timer hmem hid
    rcases hheap he with ⟨rfl, rfl⟩ | ⟨-, hother⟩
    · rcases htimers hmem with hold | rfl
      · -- The number of the new timer was not given before.
        exact absurd (Option.some.inj hid) (h.fresh timer hold).ne'
      · rfl
    · rcases htimers hmem with hold | rfl
      · exact h.mine other e hother timer hold hid
      · exact absurd (h.made other e _ hother hid) (Nat.lt_irrefl _)
  · intro timer hmem hactive
    rcases htimers hmem with hold | rfl
    · obtain ⟨e, he, hid⟩ := h.live timer hold hactive
      exact ⟨e, by rw [← he]; exact Function.update_of_ne (hidle timer hold hactive) .., hid⟩
    · exact ⟨_, Function.update_self .., rfl, hcheck⟩
  · intro other e he hopen hne
    rcases hheap he with ⟨rfl, -⟩ | ⟨-, hold⟩
    · exact ⟨_, List.mem_append_right _ List.mem_cons_self, rfl, rfl⟩
    · obtain ⟨timer, hmem, hrest⟩ := h.armed other e hold hopen hne
      exact ⟨timer, List.mem_append_left _ hmem, hrest⟩

theorem heap_timerReset (s : IOLoop) (d : DataSocket) : (s.timerReset d).heap = s.heap := by
  unfold timerReset
  split <;> rfl

theorem Beats.setHeartBeat (h : s.Beats) (ds : Ptr) (checkTime : ℕ) :
    (s.setHeartBeat ds checkTime).Beats := by
  cases hd : s.heap ds with
  | none =>
      simp only [IOLoop.setHeartBeat, withSocket, hd]
      exact h.frame (frame_fault _)
  | some d =>
      obtain ⟨pointer, hpointer, heq⟩ : ∃ pointer : Option ℕ,
          (pointer = none ∨ pointer = d.mTimer) ∧
          (s.timerReset d).timerAlive none pointer = false ∧
          s.setHeartBeat ds checkTime = (s.timerReset d).startPingCheckTimer none ds
            { d with mCheckTime := checkTime, mTimer := pointer } := by
        cases hlocked : s.timerAlive none d.mTimer with
        | true =>
            refine ⟨none, .inl rfl, rfl, ?_⟩
            simp [IOLoop.setHeartBeat, withSocket, hd, hlocked, timerReset]
        | false =>
            refine ⟨d.mTimer, .inr rfl, ?_, ?_⟩
            · simp [timerReset, hlocked]
            · simp [IOLoop.setHeartBeat, withSocket, hd, hlocked, timerReset]
      obtain ⟨hdead, heq⟩ := heq
      have hreset : ∀ d' : DataSocket, some { d with mCheckTime := 0, mTimer := pointer } = some d' →
          (d'.mTimer = none ∨ d'.mTimer = d.mTimer) ∧ d'.mCheckTime = 0 := by
        intro d' hd'
        cases hd'
        exact ⟨hpointer, rfl⟩
      have hbeats := h.reset hd hreset
      rw [heq, startPingCheckTimer, hdead]
      split
      next hstart =>
        have hne : checkTime ≠ 0 := by simpa using hstart
        have harm := hbeats.arm (Function.update_self ..) rfl hne
        simpa [Function.update_idem, heap_timerReset] using harm
      next hstart =>
        have hzero : checkTime = 0 := by simpa using hstart
        subst hzero
        simpa [heap_timerReset] using hbeats

theorem Beats.delete (h : s.Beats) (ds : Ptr) : (s.delete ds).Beats := by
  cases hd : s.heap ds with
  | none =>
      simp only [IOLoop.delete, withSocket, hd]
      exact h.frame (frame_fault _)
  | some d =>
      rw [delete_eq hd]
      exact h.reset hd (by simp)

/-! ## The expiry of a timer -/

/-- A timer is gone that was not active, or whose socket is closed. -/
theorem Beats.erase (h : s.Beats) {timer : PingTimer}
    (hclosed : timer.mActive = true → ∀ d, s.heap timer.ds = some d → d.mSocket = none) :
    Beats { s with timers := s.timers.erase timer } := by
  have hmem : ∀ other ∈ s.timers.erase timer, other ∈ s.timers :=
    fun other hother => List.mem_of_mem_erase hother
  refine ⟨fun other hother => h.fresh other (hmem other hother), ?_, h.made, ?_, ?_, ?_⟩
  · exact h.nodup.sublist ((List.erase_sublist).map _)
  · exact fun ds d hd other hother => h.mine ds d hd other (hmem other hother)
  · exact fun other hother => h.live other (hmem other hother)
  · intro ds d hd hopen hcheck
    obtain ⟨other, hother, hds, hactive⟩ := h.armed ds d hd hopen hcheck
    refine ⟨other, ?_, hds, hactive⟩
    have hne : other ≠ timer := by
      rintro rfl
      rw [hclosed hactive d (hds ▸ hd)] at hopen
      cases hopen
    exact (List.mem_erase_of_ne hne).mpr hother

/-- Whether no ping timer expires for an open socket that has received data since
its last check. -/
def expiresUnfed (s : IOLoop) : IOLoopAction → Bool
  | .timer id =>
      match s.timers.find? fun timer => timer.id = id with
      | some timer => !timer.mActive ||
          (s.heap timer.ds).all fun d => !(d.mSocket.isSome && d.mRecvData)
      | none => true
  | _ => true

/-- `PingCheck` of the active timer `timer`, which `schedule` has popped. -/
theorem Beats.pingCheck (h : s.Beats) (inv : s.Inv) {timer : PingTimer} (hmem : timer ∈ s.timers)
    (hactive : timer.mActive = true) (hd : s.heap timer.ds = some d)
    (hunfed : d.mSocket = none ∨ d.mRecvData = false) :
    Beats ({ s with timers := s.timers.erase timer }.pingCheck (some timer.id) timer.ds) := by
  obtain ⟨e, he, hid, -⟩ := h.live timer hmem hactive
  rw [hd, Option.some.injEq] at he
  subst he
  simp only [IOLoop.pingCheck, withSocket, hd]
  split
  next hfed =>
    -- The weak pointer can be locked, so no timer is set; the socket is closed.
    have hclosed : d.mSocket = none := hunfed.resolve_right (by simp [hfed])
    have halive : ({ s with timers := s.timers.erase timer } : IOLoop).timerAlive (some timer.id)
        d.mTimer = true := by simp [timerAlive, hid]
    have hsteady : d.Steady { d with mRecvData := false } := ⟨rfl, rfl, id⟩
    have hframe : Frame s { s with
        heap := Function.update s.heap timer.ds (some { d with mRecvData := false }) } :=
      .update hd hsteady rfl rfl rfl
    rw [startPingCheckTimer, halive]
    refine (h.frame hframe).erase fun _ d' hd'' => ?_
    simp only [Function.update_self, Option.some.injEq] at hd''
    exact hd'' ▸ hclosed
  next =>
    have hfinal := ((inv.wf timer.ds).posted d hd).final
    have hframe : Frame s (s.store timer.ds d d.procCloseInLoop) :=
      frame_store hd d.steady_procCloseInLoop
    refine (h.frame hframe).erase fun _ d' hd'' => ?_
    simp only [store, Function.update_self, Option.some.injEq] at hd''
    exact hd'' ▸ DataSocket.mSocket_procCloseInLoop hfinal

theorem Beats.fireTimer (h : s.Beats) (inv : s.Inv) {id : ℕ}
    (hunfed : s.expiresUnfed (.timer id) = true) (hfire : s.fireTimer id = some s') :
    s'.Beats := by
  obtain ⟨timer, hfind, rfl⟩ := Option.map_eq_some_iff.mp hfire
  have hmem : timer ∈ s.timers := List.mem_of_find?_eq_some hfind
  have hid : timer.id = id := by simpa using List.find?_some hfind
  subst hid
  dsimp only
  split
  next hactive =>
    obtain ⟨d, hd, -⟩ := h.live timer hmem hactive
    refine h.pingCheck inv hmem hactive hd ?_
    simpa [expiresUnfed, hfind, hactive, hd] using hunfed
  next hinactive => exact h.erase fun hactive => absurd hactive hinactive

/-! ## All steps -/

theorem Beats.applyOp (h : s.Beats) (caller : Caller) (ds : Ptr) (op : SessionOp) :
    (s.applyOp caller ds op).Beats := by
  cases op with
  | send packet callback =>
      have hlogged : Frame s { s with
          delivered := Function.update s.delivered ds (s.delivered ds ++ [(caller, packet)]) } :=
        .of_heap rfl rfl rfl
      exact h.frame (hlogged.trans (frame_callSocket fun d => d.steady_sendInLoop packet callback))
  | postShutdown => exact h.frame (frame_callSocket DataSocket.steady_postShutdown)
  | postDisConnect => exact h.frame (frame_callSocket DataSocket.steady_procCloseInLoop)
  | setHeartBeat checkTime => exact h.setHeartBeat ds checkTime

theorem Beats.runOp (h : s.Beats) (caller : Caller) (sid : SessionId) (op : SessionOp) :
    (s.runOp caller sid op).Beats := by
  have hhandled : Beats { s with handled := logSend s.handled caller sid op } :=
    h.frame (.of_heap rfl rfl rfl)
  unfold IOLoop.runOp
  dsimp only
  split
  next ds _ =>
    unfold withSocket
    split
    next =>
      dsimp only
      split
      next =>
        have hlogged : Beats (IOLoop.log { s with handled := logSend s.handled caller sid op } ds
          (.applied sid)) := hhandled.frame (.of_heap rfl rfl rfl)
        exact hlogged.applyOp caller ds op
      next => exact hhandled
    next => exact hhandled.frame (frame_fault _)
  next => exact hhandled

theorem Beats.enter (h : s.Beats) {linked : Bool} {back : IOLoopPc}
    (henter : s.enter loopIndex ds linked back = some s') : s'.Beats := by
  unfold IOLoop.enter at henter
  split at henter
  next =>
    cases henter
    exact h.frame (frame_fault _)
  next d hd =>
    split at henter
    next =>
      cases henter
      exact h.delete ds
    next =>
      split at henter
      next =>
        obtain ⟨mid, hmid, rfl⟩ := Option.map_eq_some_iff.mp henter
        exact h.frame ((frame_enterCallback hd hmid).trans (.of_heap rfl rfl rfl))
      next =>
        cases henter
        exact (h.frame (frame_store hd d.steady_closeSocket)).delete ds

theorem Beats.runAsync (h : s.Beats) {linked : Bool} {proc : AsyncProc}
    (hrun : s.runAsyncProc loopIndex linked proc = some s') : s'.Beats := by
  cases proc with
  | session caller sid op =>
      cases hrun
      exact h.runOp caller sid op
  | enter ds => exact h.enter hrun
  | user =>
      cases hrun
      exact h.frame (.of_heap rfl rfl rfl)

theorem Beats.next (h : s.Beats) (inv : s.Inv) {action : IOLoopAction}
    (hunfed : s.expiresUnfed action = true)
    (hnext : s.next malloc loopIndex action = some s') : s'.Beats := by
  cases inv.step_of_next hnext with
  | threadAdd hnew =>
      exact h.frame ((frame_newSocket inv hnew).trans (.of_heap rfl rfl rfl))
  | call _ => exact h.frame (frame_channelCall s _ _)
  | recvResult _ hd _ _ => exact h.frame (frame_afterRecv hd _ _ _)
  | dataReturn proclen _ hd =>
      exact h.frame ((frame_store hd (DataSocket.quiet_recvReturned _ proclen _ _).steady).goto _)
  -- An operation on a session may be `setHeartBeat`.
  | @runAsync linked proc procs _ _ _ hrun =>
      have hpopped : Beats { s with mCopyAsyncProcs := procs } := h.frame (.of_heap rfl rfl rfl)
      exact hpopped.runAsync hrun
  | @runAfter proc procs _ _ =>
      have hpopped : Frame s { s with mCopyAfterLoopProcs := procs } := .of_heap rfl rfl rfl
      exact h.frame (hpopped.trans (frame_runAfterProc _ proc))
  | writev _ hd _ _ _ => exact h.frame (frame_afterWritev hd _)
  | erase _ => exact h.frame (frame_eraseTurn s _ _ _)
  -- The only step that the condition is about.
  | timer _ hfire => exact h.fireTimer inv hunfed hfire
  | userOp sid op _ =>
      have hsent : Beats { s with sent := logSend s.sent none sid op } :=
        h.frame (.of_heap rfl rfl rfl)
      exact hsent.runOp none sid op
  -- A new object has no timer, and entering sets none.
  | userAdd _ hnew henter => exact (h.frame (frame_newSocket inv hnew)).enter henter
  | completeReturn _ _ =>
      exact h.frame ((frame_callSocket fun d => ⟨rfl, rfl, id⟩).goto _)
  | disConnectReturn _ => exact (h.delete _).frame (.of_heap rfl rfl rfl)
  | threadOp | threadProc | poll | entry | entriesDone | recvLeave | asyncDone | afterDone
  | flushLeave | writevNull | userTimer | timersDone | userAfter | completeStale | codeReturn =>
      exact h.frame (.of_heap rfl rfl rfl)

theorem beats_of_reachable (h : ((system malloc loopIndex).restrict expiresUnfed).Reachable s) :
    s.Beats := by
  refine h.invariant ?_ ?_
  · rintro s rfl
    exact beats_initial
  · intro s action s' hr hbeats hnext
    obtain ⟨hunfed, hnext⟩ := System.next_of_restrict hnext
    exact hbeats.next (inv_of_reachable hr.of_restrict) hunfed hnext

/-! ## The heartbeat -/

/-- The active ping timers of a socket. -/
def armedTimers (s : IOLoop) (ds : Ptr) : List PingTimer :=
  s.timers.filter fun timer => timer.ds = ds && timer.mActive

/-- Every open socket whose last `setHeartBeat` was not zero has one active timer. -/
def Armed (s : IOLoop) : Prop :=
  ∀ ds d, s.heap ds = some d → d.mSocket.isSome = true → d.mCheckTime ≠ 0 →
    (s.armedTimers ds).length = 1

theorem mem_armedTimers {timer : PingTimer} :
    timer ∈ s.armedTimers ds ↔ timer ∈ s.timers ∧ timer.ds = ds ∧ timer.mActive = true := by
  simp [armedTimers]

theorem Beats.nodup_timers (h : s.Beats) : s.timers.Nodup := h.nodup.of_map _

theorem Beats.to_armed (h : s.Beats) : s.Armed := by
  intro ds d hd hopen hcheck
  obtain ⟨timer, hmem, hds, hactive⟩ := h.armed ds d hd hopen hcheck
  have hall : ∀ other ∈ s.armedTimers ds, other = timer := by
    intro other hother
    obtain ⟨hmem', hds', hactive'⟩ := mem_armedTimers.mp hother
    exact h.unique hmem' hmem hactive' hactive (hds'.trans hds.symm)
  have hnodup : (s.armedTimers ds).Nodup := h.nodup_timers.filter _
  rw [List.eq_replicate_of_mem hall, List.nodup_replicate] at hnodup
  have hpos : 0 < (s.armedTimers ds).length :=
    List.length_pos_of_mem (mem_armedTimers.mpr ⟨hmem, hds, hactive⟩)
  omega

/-- When data has come in, the expiry of the timer leaves the socket without one. -/
theorem Beats.disarmed (h : s.Beats) {id : ℕ} (hfed : s.expiresUnfed (.timer id) = false)
    (hfire : s.fireTimer id = some s') : ¬ s'.Armed := by
  obtain ⟨timer, hfind, rfl⟩ := Option.map_eq_some_iff.mp hfire
  have hmem : timer ∈ s.timers := List.mem_of_find?_eq_some hfind
  have hid : timer.id = id := by simpa using List.find?_some hfind
  subst hid
  simp only [expiresUnfed, hfind, Bool.or_eq_false_iff, Bool.not_eq_false'] at hfed
  obtain ⟨hactive, hfed⟩ := hfed
  obtain ⟨d, hd, hpointer, hcheck⟩ := h.live timer hmem hactive
  simp only [hd, Option.all_some, Bool.not_eq_false', Bool.and_eq_true] at hfed
  have halive : ({ s with timers := s.timers.erase timer } : IOLoop).timerAlive (some timer.id)
      d.mTimer = true := by simp [timerAlive, hpointer]
  simp only [hactive, if_true, IOLoop.pingCheck, withSocket, hd, hfed.2, startPingCheckTimer,
    halive, Bool.not_true, Bool.false_and, Bool.false_eq_true, if_false]
  intro harmed
  have hone := harmed timer.ds { d with mRecvData := false } (Function.update_self ..) hfed.1 hcheck
  obtain ⟨other, hother⟩ := List.exists_mem_of_length_pos (hone ▸ Nat.one_pos)
  obtain ⟨hother, hds, hactive'⟩ := mem_armedTimers.mp hother
  have heq := h.unique (List.mem_of_mem_erase hother) hmem hactive' hactive hds
  exact (h.nodup_timers.mem_erase_iff.mp hother).1 heq

/-- **Heartbeat.**  In every run in which no ping timer expires for an open socket
that has received data since its last check, every open socket with a heartbeat
has exactly one active ping timer, in every state; and a step keeps this if and
only if it meets the condition. -/
theorem heartbeat_armed (malloc : Allocator) (loopIndex : ℕ) (s : IOLoop)
    (h : ((system malloc loopIndex).restrict expiresUnfed).Reachable s) :
    s.Armed ∧ ∀ action s', s.next malloc loopIndex action = some s' →
      (s'.Armed ↔ s.expiresUnfed action = true) := by
  have hbeats := beats_of_reachable h
  have inv := inv_of_reachable h.of_restrict
  refine ⟨hbeats.to_armed, fun action s' hnext => ⟨fun harmed => ?_, fun hunfed => ?_⟩⟩
  · by_contra hfed
    rw [Bool.not_eq_true] at hfed
    cases action with
    | timer id =>
        cases inv.step_of_next hnext with
        | timer _ hfire => exact hbeats.disarmed hfed hfire harmed
    | _ => cases hfed
  · exact (hbeats.next inv hunfed hnext).to_armed

/-- The first part of a run: a session enters and sets its heartbeat. -/
def heartbeatSet : List IOLoopAction :=
  [.threadAdd 5 1024, .poll [], .entriesDone, .runAsync true,
    .userOp ⟨0, 99, 0⟩ (.setHeartBeat 7), .userReturn, .asyncDone, .afterDone, .timersDone,
    .userReturn]

theorem heartbeat_armed_set :
    ∃ s, ((system .unlimited 0).restrict expiresUnfed).Reachable s ∧ s.pc = .phase .poll ∧
      (s.heap 0).map DataSocket.mCheckTime = some 7 ∧ s.Armed := by
  have hrun : (((system .unlimited 0).restrict expiresUnfed).run initial heartbeatSet).map
      (fun s => (s.pc, (s.heap 0).map DataSocket.mCheckTime)) =
      some (.phase .poll, some 7) := by decide
  obtain ⟨s, hs, heq⟩ := Option.map_eq_some_iff.mp hrun
  simp only [Prod.mk.injEq] at heq
  have hreach := System.reachable_of_run rfl hs
  exact ⟨s, hreach, heq.1, heq.2, (heartbeat_armed .unlimited 0 s hreach).1⟩

/-- The session receives a byte, and in the same turn its timer expires.  Between
this turn and the next it is open, with a heartbeat of 7 and no timer. -/
theorem not_heartbeat_armed_fed :
    ¬ ∀ s, (system .unlimited 0).Reachable s → s.pc = .phase .poll → s.Armed := by
  intro hall
  have hrun : ((system .unlimited 0).run initial
      (heartbeatSet ++ [.poll [⟨0, false, true, false⟩], .entry, .call, .recvResult (.data [1]),
        .dataReturn 1, .call, .entriesDone, .asyncDone, .afterDone, .timer 0, .timersDone,
        .userReturn])).bind
      (fun s => (s.heap 0).map fun d =>
        (s.pc, d.mSocket.isSome, d.mCheckTime, s.armedTimers 0)) =
      some (.phase .poll, true, 7, []) := by decide +kernel
  obtain ⟨s, hs, heq⟩ := Option.bind_eq_some_iff.mp hrun
  obtain ⟨d, hd, heq⟩ := Option.map_eq_some_iff.mp heq
  simp only [Prod.mk.injEq] at heq
  obtain ⟨hpc, hopen, hcheck, htimers⟩ := heq
  have hone := hall s (System.reachable_of_run rfl hs) hpc 0 d hd hopen (by simp [hcheck])
  rw [htimers] at hone
  cases hone

end IOLoop

end Brynet
