import Brynet.Net.SoundNext
import Brynet.Net.HalfClose

/-!
# What the functions of the loop do to half-closes

Most functions of the loop are `Calm`: no connection notices anything that matters
to its half-closes.  For the others, from `canSend` to the closures, it is proved
here when they keep the connections in order.
-/

namespace Brynet

open MachineInt Memory Transition

/-- The calls of `loop()` for the entry of `ds` that are still to be made. -/
def IOLoopPc.callsOf (ds : Ptr) : IOLoopPc → List ChannelCall
  | calls owner rest | recv owner rest | dataCallback owner _ _ rest =>
      if owner = ds then rest else []
  | quickFlush _ | erase .. | completeCallback .. | disConnectCallback _ | phase _ | userCode _ => []

namespace IOLoop

variable {s s' : IOLoop} {ds : Ptr} {d : DataSocket} {malloc : Allocator} {loopIndex : ℕ}

/-- The calls that `loop()` is going to make for the events of `ds`. -/
def callsOf (s : IOLoop) (ds : Ptr) : List ChannelCall :=
  s.pc.callsOf ds ++ (s.entries.filter fun entry => entry.ds = ds).flatMap EpollEntry.calls

/-! ## Calm steps -/

/-- Nothing happens that matters to a half-close. -/
structure Calm (s s' : IOLoop) : Prop where
  connections : ∀ ds, (s.connection ds).Calm (s'.connection ds)
  calls : ∀ ds, (s'.callsOf ds).Sublist (s.callsOf ds)

theorem Calm.trans {mid : IOLoop} (h : Calm s mid) (h' : Calm mid s') : Calm s s' :=
  ⟨fun ds => (h.connections ds).trans (h'.connections ds),
    fun ds => (h'.calls ds).trans (h.calls ds)⟩

theorem Calm.of_same (hconnection : ∀ ds, s'.connection ds = s.connection ds)
    (hcalls : ∀ ds, s'.callsOf ds = s.callsOf ds) : Calm s s' where
  connections ds := by
    rw [hconnection]
    exact .refl _
  calls ds := by rw [hcalls]

/-- The objects that are open were open and can be written as before. -/
theorem Calm.of_heap
    (hheap : ∀ ds d', s'.heap ds = some d' → d'.mSocket.isSome = true →
      ∃ d, s.heap ds = some d ∧ d.SameOutput d')
    (hprocs : s'.mCopyAfterLoopProcs = s.mCopyAfterLoopProcs ∧
      s'.mAfterLoopProcs = s.mAfterLoopProcs)
    (hpc : s'.pc = s.pc ∧ s'.entries = s.entries)
    (hbytes : s'.delivered = s.delivered ∧ s'.wire = s.wire) : Calm s s' where
  connections ds := by
    refine ⟨⟨[], ?_, by simp⟩, ?_, ?_, ?_⟩
    · simp [connection, procsOf, hprocs]
    · simp [connection, Connection.queued, hbytes]
    · simp [connection, hbytes]
    · intro d' hd' hopen
      refine ⟨?_, hheap ds d' hd' hopen⟩
      change (s'.pc.activity ds).isFlushing = (s.pc.activity ds).isFlushing
      rw [hpc.1]
  calls ds := by rw [callsOf, callsOf, hpc.1, hpc.2]

theorem calm_log (s : IOLoop) (ds : Ptr) (event : SocketEvent) : Calm s (s.log ds event) :=
  .of_heap (fun _ d hd hopen => ⟨d, hd, hopen, rfl, rfl, rfl⟩) ⟨rfl, rfl⟩ ⟨rfl, rfl⟩ ⟨rfl, rfl⟩

theorem calm_fault (s : IOLoop) (fault : Option Fault) : Calm s { s with fault := fault } :=
  .of_heap (fun _ d hd hopen => ⟨d, hd, hopen, rfl, rfl, rfl⟩) ⟨rfl, rfl⟩ ⟨rfl, rfl⟩ ⟨rfl, rfl⟩

/-- An object is replaced by one that can be written as before. -/
theorem Calm.update {d' : DataSocket} (hd : s.heap ds = some d) (hcalm : d.Calm (d', []))
    (hheap : s'.heap = Function.update s.heap ds (some d'))
    (hprocs : s'.mCopyAfterLoopProcs = s.mCopyAfterLoopProcs ∧
      s'.mAfterLoopProcs = s.mAfterLoopProcs)
    (hpc : s'.pc = s.pc ∧ s'.entries = s.entries)
    (hbytes : s'.delivered = s.delivered ∧ s'.wire = s.wire) : Calm s s' := by
  refine .of_heap ?_ hprocs hpc hbytes
  intro other e he hopen
  rw [hheap] at he
  by_cases heq : other = ds
  · subst heq
    rw [Function.update_self, Option.some.injEq] at he
    subst he
    exact ⟨d, hd, hcalm.same hopen⟩
  · rw [Function.update_of_ne heq] at he
    exact ⟨e, he, hopen, rfl, rfl, rfl⟩

theorem calm_store (hd : s.heap ds = some d) {result : DataSocket × List AfterProc}
    (hcalm : d.Calm result) : Calm s (s.store ds d result) where
  connections other := by
    by_cases heq : other = ds
    · subst heq
      rw [connection_store_self]
      refine ⟨⟨result.2, rfl, hcalm.posted⟩, List.prefix_refl _, List.prefix_refl _, ?_⟩
      intro d' hd' hopen
      cases hd'
      exact ⟨rfl, d, hd, hcalm.same hopen⟩
    · rw [connection_store_of_ne heq]
      exact .refl _
  calls _ := List.Sublist.refl _

theorem calm_withSocket {f : DataSocket → IOLoop}
    (h : ∀ d, s.heap ds = some d → Calm s (f d)) : Calm s (s.withSocket ds f) := by
  unfold withSocket
  split
  next d hd => exact h d hd
  next => exact calm_fault s _

theorem pc_callSocket (s : IOLoop) (ds : Ptr) (f : DataSocket → DataSocket × List AfterProc) :
    (s.callSocket ds f).pc = s.pc := by
  unfold callSocket withSocket
  split <;> rfl

theorem calm_callSocket {f : DataSocket → DataSocket × List AfterProc}
    (h : ∀ d : DataSocket, d.Calm (f d)) : Calm s (s.callSocket ds f) :=
  calm_withSocket fun d hd => calm_store hd (h d)

/-! ## Where the loop thread goes -/

theorem isFlushing_activity (pc : IOLoopPc) (ds : Ptr) :
    (pc.activity ds).isFlushing = (decide (pc.socket? = some ds) && pc.doing.isFlushing) := by
  unfold IOLoopPc.activity
  split
  next h => simp [h]
  next h => simp [h, Activity.isFlushing]

theorem callsOf_of_isFlushing {pc : IOLoopPc} (h : pc.doing.isFlushing = true) (ds : Ptr) :
    pc.callsOf ds = [] := by
  cases pc with
  | calls | recv | dataCallback => cases h
  | quickFlush | erase | completeCallback | disConnectCallback | phase | userCode => rfl

theorem callsOf_of_away {pc : IOLoopPc} (h : pc.activity ds = .away) : pc.callsOf ds = [] := by
  cases pc with
  | calls owner | recv owner | dataCallback owner =>
      refine if_neg fun howner => ?_
      subst howner
      rw [activity_self rfl] at h
      cases h
  | quickFlush | erase | completeCallback | disConnectCallback | phase | userCode => rfl

/-- The loop thread goes on, and no open socket notices whether it is flushing. -/
theorem calm_goto {pc : IOLoopPc}
    (hflushing : ∀ ds d, s.heap ds = some d → d.mSocket.isSome = true →
      (pc.activity ds).isFlushing = (s.pc.activity ds).isFlushing)
    (hcalls : ∀ ds, (pc.callsOf ds).Sublist (s.pc.callsOf ds)) : Calm s (s.goto pc) where
  connections ds := by
    rw [connection_goto]
    refine ⟨⟨[], by simp⟩, List.prefix_refl _, List.prefix_refl _, ?_⟩
    intro d hd hopen
    exact ⟨hflushing ds d hd hopen, d, hd, hopen, rfl, rfl, rfl⟩
  calls ds := (hcalls ds).append_right _

/-- It was not flushing and does not begin to. -/
theorem calm_goto_idle {pc : IOLoopPc} (hidle : s.pc.doing.isFlushing = false)
    (hidle' : pc.doing.isFlushing = false)
    (hcalls : ∀ ds, (pc.callsOf ds).Sublist (s.pc.callsOf ds)) : Calm s (s.goto pc) := by
  refine calm_goto (fun ds d _ _ => ?_) hcalls
  rw [isFlushing_activity, isFlushing_activity, hidle, hidle', Bool.and_false, Bool.and_false]

/-- It goes on flushing the same socket. -/
theorem calm_goto_flushing {pc : IOLoopPc} (hflushing : s.pc.doing.isFlushing = true)
    (hflushing' : pc.doing.isFlushing = true) (hsocket : pc.socket? = s.pc.socket?) :
    Calm s (s.goto pc) := by
  refine calm_goto (fun ds d _ _ => ?_) (fun ds => ?_)
  · rw [isFlushing_activity, isFlushing_activity, hflushing, hflushing', hsocket]
  · rw [callsOf_of_isFlushing hflushing']
    exact List.nil_sublist _

/-! ## Receiving, timers and objects -/

/-- The loop thread stays with the event of `ds`. -/
theorem calm_handling {pc : IOLoopPc} {rest rest' : List ChannelCall}
    (hidle : s.pc.doing.isFlushing = false) (hidle' : pc.doing.isFlushing = false)
    (hfrom : ∀ other, s.pc.callsOf other = if ds = other then rest else [])
    (hto : ∀ other, pc.callsOf other = if ds = other then rest' else [])
    (hrest : rest'.Sublist rest) : Calm s (s.goto pc) := by
  refine calm_goto_idle hidle hidle' fun other => ?_
  rw [hfrom, hto]
  split
  · exact hrest
  · exact List.Sublist.refl _

theorem calm_afterRecv {rest : List ChannelCall} (hpc : s.pc = .recv ds rest)
    (hd : s.heap ds = some d) (tryRecvLen : ℕ) (r : RecvResult) :
    Calm s (s.afterRecv malloc ds d rest tryRecvLen r) := by
  -- The calls that are left do not change.
  have hstay : ∀ {mid : IOLoop} {pc : IOLoopPc}, mid.pc = s.pc → pc.doing.isFlushing = false →
      (∀ other, pc.callsOf other = if ds = other then rest else []) → Calm mid (mid.goto pc) := by
    intro mid pc hmid hidle hto
    refine calm_handling (by rw [hmid, hpc]; rfl) hidle (fun other => ?_) hto (List.Sublist.refl _)
    rw [hmid, hpc]
    rfl
  cases r with
  | data bytes =>
      simp only [afterRecv]
      split
      next => exact calm_fault s _
      next arrived harrived =>
        have hquiet := DataSocket.quiet_recvArrived harrived
        split
        · refine ((calm_store hd hquiet.calm).trans (calm_log _ ds .dataCallback)).trans ?_
          exact hstay rfl rfl fun _ => rfl
        · have hadjust := DataSocket.quiet_recvAdjust arrived
          refine (calm_store hd (hquiet.trans hadjust).calm).trans ?_
          split
          · exact hstay rfl rfl fun _ => rfl
          · exact hstay rfl rfl fun _ => rfl
  | wouldBlock => exact hstay rfl rfl fun _ => rfl
  | eof | error =>
      exact (calm_store hd d.calm_procCloseInLoop).trans (hstay rfl rfl fun _ => rfl)

theorem calm_startPingCheckTimer {e : DataSocket} (hd : s.heap ds = some e)
    (hcalm : e.Calm (d, [])) (held : Option ℕ) : Calm s (s.startPingCheckTimer held ds d) := by
  unfold startPingCheckTimer
  split
  · have hcalm' : e.Calm ({ d with mTimer := some s.nextTimer }, []) :=
      ⟨fun hopen => ⟨(hcalm.same hopen).opened, (hcalm.same hopen).canWrite,
        (hcalm.same hopen).epollOut, (hcalm.same hopen).shutWr⟩, by simp⟩
    exact .update hd hcalm' rfl ⟨rfl, rfl⟩ ⟨rfl, rfl⟩ ⟨rfl, rfl⟩
  · exact .update hd hcalm rfl ⟨rfl, rfl⟩ ⟨rfl, rfl⟩ ⟨rfl, rfl⟩

theorem calm_setHeartBeat (s : IOLoop) (ds : Ptr) (checkTime : ℕ) :
    Calm s (s.setHeartBeat ds checkTime) := by
  refine calm_withSocket fun d hd => ?_
  have hquiet (timer : Option ℕ) : d.Calm ({ d with mTimer := timer, mCheckTime := checkTime }, []) :=
    ⟨fun hopen => ⟨hopen, rfl, rfl, rfl⟩, by simp⟩
  have hcancel : Calm s (s.cancelTimer d.mTimer) :=
    .of_heap (fun _ d hd hopen => ⟨d, hd, hopen, rfl, rfl, rfl⟩) ⟨rfl, rfl⟩ ⟨rfl, rfl⟩ ⟨rfl, rfl⟩
  cases s.timerAlive none d.mTimer with
  | true =>
      have hd' : (s.cancelTimer d.mTimer).heap ds = some d := hd
      exact hcancel.trans (calm_startPingCheckTimer hd' (hquiet none) none)
  | false => exact calm_startPingCheckTimer hd (hquiet d.mTimer) none

theorem calm_pingCheck (s : IOLoop) (held : Option ℕ) (ds : Ptr) :
    Calm s (s.pingCheck held ds) := by
  refine calm_withSocket fun d hd => ?_
  have hquiet : d.Calm ({ d with mRecvData := false }, []) :=
    ⟨fun hopen => ⟨hopen, rfl, rfl, rfl⟩, by simp⟩
  split
  · exact calm_startPingCheckTimer hd hquiet held
  · exact calm_store hd d.calm_procCloseInLoop

theorem calm_fireTimer {id : ℕ} (h : s.fireTimer id = some s') : Calm s s' := by
  obtain ⟨timer, -, rfl⟩ := Option.map_eq_some_iff.mp h
  have herase : Calm s { s with timers := s.timers.erase timer } :=
    .of_heap (fun _ d hd hopen => ⟨d, hd, hopen, rfl, rfl, rfl⟩) ⟨rfl, rfl⟩ ⟨rfl, rfl⟩ ⟨rfl, rfl⟩
  dsimp only
  split
  · exact herase.trans (calm_pingCheck _ _ _)
  · exact herase

theorem calm_delete (s : IOLoop) (ds : Ptr) : Calm s (s.delete ds) := by
  cases hd : s.heap ds with
  | none =>
      simp only [delete, withSocket, hd]
      exact calm_fault s _
  | some d =>
      rw [delete_eq hd]
      have hheap : ∀ other d', Function.update s.heap ds none other = some d' →
          d'.mSocket.isSome = true → ∃ d, s.heap other = some d ∧ d.SameOutput d' := by
        intro other d' hd' hopen
        by_cases heq : other = ds
        · subst heq
          rw [Function.update_self] at hd'
          cases hd'
        · rw [Function.update_of_ne heq] at hd'
          exact ⟨d', hd', hopen, rfl, rfl, rfl⟩
      refine .of_heap hheap ?_ ?_ ?_
      all_goals unfold timerReset
      all_goals split
      all_goals exact ⟨rfl, rfl⟩

theorem calm_enterCallback (hd : s.heap ds = some d)
    (h : s.enterCallback loopIndex ds d = some s') : Calm s s' ∧ s'.pc = s.pc := by
  obtain ⟨⟨sid, data⟩, -, rfl⟩ := Option.map_eq_some_iff.mp h
  have hcalm : d.Calm
      ({ d with mEventLoop := true, mUD := some sid, mDataCallback := true }, []) :=
    ⟨fun hopen => ⟨hopen, rfl, rfl, rfl⟩, by simp⟩
  exact ⟨.update hd hcalm rfl ⟨rfl, rfl⟩ ⟨rfl, rfl⟩ ⟨rfl, rfl⟩, rfl⟩

/-- A socket enters, or is deleted at once. -/
theorem calm_enter {linked : Bool} {back : IOLoopPc}
    (hidle : ∀ ds, (back.activity ds).isFlushing = (s.pc.activity ds).isFlushing)
    (hcalls : ∀ ds, back.callsOf ds = s.pc.callsOf ds)
    (h : s.enter loopIndex ds linked back = some s') : Calm s s' := by
  unfold enter at h
  split at h
  next =>
    cases h
    exact calm_fault s _
  next d hd =>
    split at h
    next =>
      cases h
      exact calm_delete s ds
    next =>
      split at h
      next =>
        obtain ⟨mid, hmid, rfl⟩ := Option.map_eq_some_iff.mp h
        obtain ⟨hcalm, hpc⟩ := calm_enterCallback hd hmid
        refine hcalm.trans (calm_goto (fun ds _ _ _ => ?_) fun ds => ?_)
        · rw [hpc]
          exact hidle ds
        · rw [hpc, hcalls]
      next =>
        cases h
        have hclose : d.Calm (d.closeSocket, []) := by
          refine ⟨fun hopen => ?_, by simp⟩
          unfold DataSocket.closeSocket at hopen
          split at hopen
          · cases hopen
          · contradiction
        exact (calm_store hd hclose).trans (calm_delete _ ds)

/-! ## Operations -/

theorem calm_delivered (s : IOLoop) (caller : Caller) (ds : Ptr) (packet : List UInt8) :
    Calm s { s with
      delivered := Function.update s.delivered ds (s.delivered ds ++ [(caller, packet)]) } where
  connections other := by
    refine ⟨⟨[], by simp [connection, procsOf]⟩, ?_, List.prefix_refl _,
      fun d hd hopen => ⟨rfl, d, hd, hopen, rfl, rfl, rfl⟩⟩
    by_cases heq : other = ds
    · subst heq
      simp [connection, Connection.queued]
    · simp [connection, Connection.queued, Function.update_of_ne heq]
  calls _ := List.Sublist.refl _

theorem calm_applyOp (s : IOLoop) (caller : Caller) (ds : Ptr) {op : SessionOp}
    (hop : op ≠ .postShutdown) : Calm s (s.applyOp caller ds op) := by
  cases op with
  | send packet callback =>
      exact (calm_delivered s caller ds packet).trans
        (calm_callSocket fun d => d.calm_sendInLoop packet callback)
  | postShutdown => exact absurd rfl hop
  | postDisConnect => exact calm_callSocket DataSocket.calm_procCloseInLoop
  | setHeartBeat checkTime => exact calm_setHeartBeat s ds checkTime

theorem calm_logs (s : IOLoop) (sent handled : List (Caller × SessionId × List UInt8)) :
    Calm s { s with sent := sent, handled := handled } :=
  .of_same (fun _ => rfl) fun _ => rfl

/-- An operation other than `postShutdown`. -/
theorem calm_runOp (s : IOLoop) (caller : Caller) (sid : SessionId) {op : SessionOp}
    (hop : op ≠ .postShutdown) : Calm s (s.runOp caller sid op) := by
  refine (calm_logs s s.sent (logSend s.handled caller sid op)).trans ?_
  unfold runOp
  dsimp only
  split
  next ds _ =>
    refine calm_withSocket fun d _ => ?_
    split
    · exact (calm_log _ ds _).trans (calm_applyOp _ caller ds hop)
    · exact .of_same (fun _ => rfl) fun _ => rfl
  next => exact .of_same (fun _ => rfl) fun _ => rfl

/-- The open socket that an operation on `sid` reaches. -/
def openSocket (s : IOLoop) (sid : SessionId) : Option Ptr :=
  match s.data.mDataSockets.get sid.index.toNat with
  | some (some ds) =>
      if (s.heap ds).any fun d => d.mUD = some sid && d.mSocket.isSome then some ds else none
  | _ => none

/-- `postShutdown` on an id without an open socket. -/
theorem calm_runOp_missed (s : IOLoop) (caller : Caller) {sid : SessionId}
    (hmissed : s.openSocket sid = none) : Calm s (s.runOp caller sid .postShutdown) := by
  refine (calm_logs s s.sent (logSend s.handled caller sid .postShutdown)).trans ?_
  unfold runOp
  unfold openSocket at hmissed
  dsimp only
  split
  next ds hget =>
    refine calm_withSocket fun d hd => ?_
    have hheap : s.heap ds = some d := hd
    simp only [hget, hheap, Option.any_some, ite_eq_right_iff, reduceCtorEq, imp_false,
      Bool.and_eq_true, decide_eq_true_eq, not_and] at hmissed
    split
    next hud =>
      have hclosed : d.postShutdown = (d, []) := by
        rw [DataSocket.postShutdown, if_neg (hmissed hud)]
      refine (calm_log _ ds _).trans (calm_withSocket fun d' hd' => ?_)
      have hsame : d' = d := by
        rw [← Option.some.injEq, ← hd', ← hheap]
        rfl
      subst hsame
      refine calm_store hd' ?_
      rw [hclosed]
      exact .refl d'
    next => exact .of_same (fun _ => rfl) fun _ => rfl
  next => exact .of_same (fun _ => rfl) fun _ => rfl

/-! ## All connections -/

/-- The half-closes of all connections are in order. -/
def InOrder (s : IOLoop) (asked : Ptr → List (List UInt8)) : Prop :=
  ∀ ds, (s.connection ds).InOrder (asked ds) (s.callsOf ds)

variable {asked asked' : Ptr → List (List UInt8)}

theorem inOrder_initial : initial.InOrder fun _ => [] :=
  fun _ => Connection.inOrder_absent

theorem InOrder.calm (h : s.InOrder asked) (hcalm : Calm s s') : s'.InOrder asked :=
  fun ds => (h ds).calm (hcalm.connections ds) (hcalm.calls ds)

/-- Something happens at one socket. -/
theorem InOrder.at_socket (h : s.InOrder asked) (ds : Ptr)
    (hself : (s'.connection ds).InOrder (asked' ds) (s'.callsOf ds))
    (hothers : ∀ other, other ≠ ds → s'.connection other = s.connection other ∧
      s'.callsOf other = s.callsOf other ∧ asked' other = asked other) : s'.InOrder asked' := by
  intro other
  by_cases heq : other = ds
  · exact heq ▸ hself
  · obtain ⟨hconnection, hcalls, hasked⟩ := hothers other heq
    rw [hconnection, hcalls, hasked]
    exact h other

/-- `postShutdown` on an open socket. -/
theorem InOrder.runOp (h : s.InOrder asked) (inv : s.Inv)
    (hflushes : ∀ ds, (s.connection ds).Flushes) (hstreams : ∀ ds, (s.connection ds).Streams)
    (caller : Caller) {sid : SessionId} (hopened : s.openSocket sid = some ds)
    (hself : asked' ds = asked ds ++ [(s.connection ds).queued])
    (hothers : ∀ other, other ≠ ds → asked' other = asked other) :
    (s.runOp caller sid .postShutdown).InOrder asked' := by
  unfold openSocket at hopened
  split at hopened
  next owner hget =>
    rw [Option.ite_none_right_eq_some, Option.some.injEq, Option.any_eq_true] at hopened
    obtain ⟨⟨d, hd, hud⟩, rfl⟩ := hopened
    simp only [Bool.and_eq_true, decide_eq_true_eq] at hud
    obtain ⟨hud, hopen⟩ := hud
    have hask := (h owner).ask (inv.wf owner) (hflushes owner) (hstreams owner) hd hopen
    have hrun : s.runOp caller sid .postShutdown = IOLoop.store
        (IOLoop.log { s with handled := logSend s.handled caller sid .postShutdown } owner
          (.applied sid)) owner d d.postShutdown := by
      simp [IOLoop.runOp, hget, withSocket, hd, hud, applyOp, callSocket, log]
    rw [hrun]
    refine h.at_socket owner ?_ ?_
    · rw [connection_store_self, connection_log_self, hself]
      exact hask.calm (.of_eq rfl rfl rfl rfl rfl) (List.Sublist.refl _)
    · intro other hne
      refine ⟨?_, rfl, hothers other hne⟩
      rw [connection_store_of_ne hne, connection_log_of_ne hne]
      rfl
  next => cases hopened

/-! ## Events -/

/-- An entry stands for one call of `canSend` at most. -/
theorem count_canSend_calls (entry : EpollEntry) : entry.calls.count .canSend ≤ 1 := by
  obtain ⟨ds, rdhup, readable, writable⟩ := entry
  cases rdhup <;> cases readable <;> cases writable <;> simp [EpollEntry.calls]

theorem writable_of_mem_calls {entry : EpollEntry} (h : .canSend ∈ entry.calls) :
    entry.writable = true := by
  obtain ⟨ds, rdhup, readable, writable⟩ := entry
  cases rdhup <;> cases readable <;> cases writable <;> simp_all [EpollEntry.calls]

/-- There is one entry of `ds` at most. -/
theorem filter_entries {entries : List EpollEntry} (hnodup : (entries.map EpollEntry.ds).Nodup)
    (ds : Ptr) : (entries.filter fun entry => entry.ds = ds) = [] ∨
      ∃ entry ∈ entries, entry.ds = ds ∧ (entries.filter fun entry => entry.ds = ds) = [entry] := by
  induction entries with
  | nil => exact .inl rfl
  | cons entry entries ih =>
      rw [List.map_cons, List.nodup_cons] at hnodup
      by_cases heq : entry.ds = ds
      · right
        have hnone : (entries.filter fun other => other.ds = ds) = [] := by
          rw [List.filter_eq_nil_iff]
          intro other hother hds
          rw [decide_eq_true_eq] at hds
          exact hnodup.1 (List.mem_map.mpr ⟨other, hother, hds.trans heq.symm⟩)
        refine ⟨entry, List.mem_cons_self, heq, ?_⟩
        rw [List.filter_cons_of_pos (by simpa using heq), hnone]
      · rw [List.filter_cons_of_neg (by simpa using heq)]
        rcases ih hnodup.2 with hnone | ⟨other, hother, hds, hone⟩
        · exact .inl hnone
        · exact .inr ⟨other, List.mem_cons_of_mem _ hother, hds, hone⟩

/-- The kernel reports a socket once, and writability only while it is armed. -/
theorem InOrder.poll (h : s.InOrder asked) {entries : List EpollEntry}
    (hpc : s.pc = .phase .poll) (hreports : entries.all s.reports = true)
    (hnodup : (entries.map EpollEntry.ds).Nodup) :
    InOrder { s.goto (.phase .events) with entries := entries } asked := by
  have hfrom : s.pc.socket? = none := by rw [hpc]; rfl
  intro ds
  have hconnection : IOLoop.connection { s.goto (.phase .events) with entries := entries } ds =
      s.connection ds := connection_of_away (.phase .events) hfrom rfl ds
  have hcalls : callsOf { s.goto (.phase .events) with entries := entries } ds =
      (entries.filter fun entry => entry.ds = ds).flatMap EpollEntry.calls := rfl
  have hsame := h ds
  rw [hconnection, hcalls]
  rcases filter_entries hnodup ds with hnone | ⟨entry, hentry, rfl, hone⟩
  · rw [hnone]
    exact hsame.calm (.refl _) (List.nil_sublist _)
  · rw [hone, List.flatMap_singleton]
    refine ⟨hsame.count, hsame.before, count_canSend_calls entry, ?_⟩
    intro d hd hopen
    have horderly := hsame.opened d hd hopen
    refine ⟨horderly.writable, horderly.flushing, horderly.shut, ?_, horderly.settled⟩
    intro hmem
    have hreport := List.all_eq_true.mp hreports entry hentry
    have hheap : s.heap entry.ds = some d := hd
    simp only [reports, hheap, writable_of_mem_calls hmem, Bool.not_true, Bool.false_or,
      Bool.and_eq_true] at hreport
    exact hreport.2

/-- The calls for an entry are those that were to be made for it. -/
theorem calm_entry {entry : EpollEntry} {rest : List EpollEntry} (hpc : s.pc = .phase .events)
    (hentries : s.entries = entry :: rest) :
    Calm s { s.goto (.calls entry.ds entry.calls) with entries := rest } where
  connections ds := by
    have hcalm : (s.connection ds).Calm ((s.goto (.calls entry.ds entry.calls)).connection ds) := by
      rw [connection_goto]
      refine ⟨⟨[], by simp⟩, List.prefix_refl _, List.prefix_refl _, ?_⟩
      intro d hd hopen
      refine ⟨?_, d, hd, hopen, rfl, rfl, rfl⟩
      change ((IOLoopPc.calls entry.ds entry.calls).activity ds).isFlushing =
        (s.pc.activity ds).isFlushing
      rw [isFlushing_activity, isFlushing_activity, hpc]
      simp [IOLoopPc.doing, Activity.isFlushing]
    exact hcalm
  calls ds := by
    have hsame : callsOf { s.goto (.calls entry.ds entry.calls) with entries := rest } ds =
        s.callsOf ds := by
      simp only [callsOf, goto, hentries, hpc, IOLoopPc.callsOf, List.filter_cons,
        decide_eq_true_eq, List.nil_append]
      split <;> simp
    rw [hsame]

/-- `canSend` is called for a socket whose next closure is not the shutdown closure. -/
theorem InOrder.canSend (h : s.InOrder asked) (inv : s.Inv) {rest : List ChannelCall}
    (hpc : s.pc = .calls ds (.canSend :: rest)) (hd : s.heap ds = some d)
    (hnext : d.mSocket.isSome = true → (s.procsOf ds).head? ≠ some .shutdown) :
    ((s.callSocket ds DataSocket.canSend).goto (.calls ds rest)).InOrder asked := by
  simp only [callSocket, withSocket, hd]
  have hactivity (other : Ptr) :
      (IOLoopPc.calls ds rest).activity other = s.pc.activity other := by
    rw [hpc]
    rfl
  refine h.at_socket ds ?_ ?_
  · have hcalls : s.callsOf ds =
        .canSend :: callsOf ((s.store ds d d.canSend).goto (.calls ds rest)) ds := by
      simp [callsOf, hpc, goto, store, IOLoopPc.callsOf]
    have hself := h ds
    rw [hcalls] at hself
    rw [connection_goto, connection_store_self]
    exact (hself.canSend (inv.wf ds) hd hnext).calm (.of_eq rfl rfl (hactivity ds) rfl rfl)
      (List.Sublist.refl _)
  · intro other hne
    refine ⟨?_, ?_, rfl⟩
    · rw [connection_goto, connection_store_of_ne hne, hactivity]
      rfl
    · simp [callsOf, hpc, goto, store, IOLoopPc.callsOf, hne.symm]

/-! ## Flushing -/

/-- A flush ends because the kernel does not take everything. -/
theorem InOrder.blockWrite (h : s.InOrder asked) (hd : s.heap ds = some d)
    (hsocket : s.pc.socket? = some ds) (hflushing : s.pc.doing.isFlushing = true) :
    ((s.store ds d (d.blockWrite, [])).goto (.phase .after)).InOrder asked := by
  have hcalls (other : Ptr) :
      callsOf ((s.store ds d (d.blockWrite, [])).goto (.phase .after)) other = s.callsOf other := by
    rw [callsOf, callsOf, callsOf_of_isFlushing hflushing]
    rfl
  refine h.at_socket ds ?_ ?_
  · have hactivity : (s.connection ds).activity.isFlushing = true := by
      change (s.pc.activity ds).isFlushing = true
      rw [activity_self hsocket, hflushing]
    rw [connection_goto, connection_store_self, hcalls]
    exact (h ds).blocked hd hactivity rfl
  · intro other hne
    refine ⟨?_, hcalls other, rfl⟩
    rw [connection_goto, connection_store_of_ne hne, activity_phase, ← activity_of_ne hsocket hne]
    rfl

/-- A flush ends because nothing is left. -/
theorem InOrder.flushLeave (h : s.InOrder asked) (hstreams : (s.connection ds).Streams)
    (hpc : s.pc = .quickFlush ds) (hd : s.heap ds = some d) (hlist : d.mSendList = []) :
    (s.goto (.phase .after)).InOrder asked := by
  have hsocket : s.pc.socket? = some ds := by rw [hpc]; rfl
  have hcalls (other : Ptr) : callsOf (s.goto (.phase .after)) other = s.callsOf other := by
    rw [callsOf, callsOf, hpc]
    rfl
  refine h.at_socket ds ?_ ?_
  · have hactivity : (s.connection ds).activity = .writing := by
      change s.pc.activity ds = .writing
      rw [activity_self hsocket, hpc]
      rfl
    rw [connection_goto, hcalls]
    exact (h ds).flushed hstreams hd hactivity hlist
  · intro other hne
    refine ⟨?_, hcalls other, rfl⟩
    rw [connection_goto, activity_phase, ← activity_of_ne hsocket hne]
    rfl

theorem calm_wire (s : IOLoop) (ds : Ptr) (bytes : List UInt8) :
    Calm s { s with wire := Function.update s.wire ds (s.wire ds ++ bytes) } where
  connections other := by
    refine ⟨⟨[], by simp [connection, procsOf]⟩, List.prefix_refl _, ?_,
      fun d hd hopen => ⟨rfl, d, hd, hopen, rfl, rfl, rfl⟩⟩
    by_cases heq : other = ds
    · subst heq
      simp [connection]
    · simp [connection, Function.update_of_ne heq]
  calls _ := List.Sublist.refl _

theorem InOrder.afterWritev (h : s.InOrder asked) (inv : s.Inv) (hpc : s.pc = .quickFlush ds)
    (hd : s.heap ds = some d) (r : WritevResult) : (s.afterWritev ds d r).InOrder asked := by
  have hsocket : s.pc.socket? = some ds := by rw [hpc]; rfl
  have hflushing : s.pc.doing.isFlushing = true := by rw [hpc]; rfl
  cases r with
  | accepted count =>
      have hgo : Calm s (s.goto
          (.erase ds (ofInt32 (toInt32 count)) (decide (toInt32 count = d.readySendLen)))) :=
        calm_goto_flushing hflushing rfl hsocket.symm
      exact h.calm (hgo.trans (calm_wire _ ds _))
  | wouldBlock => exact h.blockWrite hd hsocket hflushing
  | error =>
      have hclosed := DataSocket.mSocket_procCloseInLoop ((inv.wf ds).posted d hd).final
      refine h.calm ((calm_store hd d.calm_procCloseInLoop).trans (calm_goto ?_ ?_))
      · intro other d' hd' hopen
        by_cases heq : other = ds
        · -- The socket that was flushed is closed.
          subst heq
          simp only [store, Function.update_self, Option.some.injEq] at hd'
          rw [← hd', hclosed] at hopen
          cases hopen
        · change _ = (s.pc.activity other).isFlushing
          rw [activity_of_ne hsocket heq, activity_phase]
      · exact fun _ => List.nil_sublist _

theorem InOrder.afterErase (h : s.InOrder asked) {tmpLen : ℕ} {full : Bool}
    (hpc : s.pc = .erase ds tmpLen full) (hd : s.heap ds = some d) :
    (s.afterErase ds d full).InOrder asked := by
  have hsocket : s.pc.socket? = some ds := by rw [hpc]; rfl
  have hflushing : s.pc.doing.isFlushing = true := by rw [hpc]; rfl
  unfold IOLoop.afterErase
  split
  · exact h.calm (calm_goto_flushing hflushing rfl hsocket.symm)
  · split
    · exact h.calm (calm_fault s _)
    · exact h.blockWrite hd hsocket hflushing

theorem InOrder.eraseTurn (h : s.InOrder asked) {tmpLen : ℕ} {full : Bool}
    (hpc : s.pc = .erase ds tmpLen full) : (s.eraseTurn ds tmpLen full).InOrder asked := by
  have hsocket : s.pc.socket? = some ds := by rw [hpc]; rfl
  have hflushing : s.pc.doing.isFlushing = true := by rw [hpc]; rfl
  cases hd : s.heap ds with
  | none =>
      simp only [IOLoop.eraseTurn, withSocket, hd]
      exact h.calm (calm_fault s _)
  | some d =>
      simp only [IOLoop.eraseTurn, withSocket, hd]
      split
      next => exact h.afterErase hpc hd
      next packet rest _ =>
        split
        · have hshrunk : Calm s
              ((s.store ds d (d.shrinkFront tmpLen, [])).goto (.erase ds 0 full)) :=
            (calm_store hd (d.calm_shrinkFront tmpLen)).trans
              (calm_goto_flushing hflushing rfl hsocket.symm)
          exact (h.calm hshrunk).afterErase rfl (Function.update_self ..)
        · split
          · exact h.calm (calm_goto_flushing hflushing rfl hsocket.symm)
          · exact h.calm ((calm_store hd d.calm_eraseFront).trans
              (calm_goto_flushing hflushing rfl hsocket.symm))

/-! ## After-loop procs -/

section Pop

variable {proc : AfterProc} {procs : List LoopProc}

theorem callsOf_of_phase {p : LoopPhase} (hpc : s.pc = .phase p) (other : Ptr) :
    s.pc.callsOf other = [] := by
  rw [hpc]
  rfl

/-- A flush or shutdown closure that leaves its socket as `d'` and goes to `pc`. -/
theorem InOrder.ran (h : s.InOrder asked) {pc : IOLoopPc} {d' : DataSocket}
    (hpc : s.pc = .phase .after) (hcopy : s.mCopyAfterLoopProcs = .socket ds proc :: procs)
    (hsocket : d'.mSocket = d.mSocket) (haway : ∀ other, other ≠ ds → pc.activity other = .away)
    (hcalls : ∀ other, pc.callsOf other = [])
    (hself : Connection.InOrder { (s.connection ds).log (.ran proc) with
      socket := some d', procs := (s.popped procs).procsOf ds, activity := pc.activity ds }
      (asked' ds) (s.callsOf ds))
    (hothers : ∀ other, other ≠ ds → asked' other = asked other) :
    ((((s.popped procs).log ds (.ran proc)).store ds d (d', [])).goto pc).InOrder asked' := by
  have hsame (other : Ptr) : callsOf ((((s.popped procs).log ds (.ran proc)).store ds d
      (d', [])).goto pc) other = s.callsOf other := by
    simp only [callsOf, hpc, goto, hcalls]
    rfl
  refine h.at_socket ds ?_ ?_
  · rw [connection_goto, connection_store_self, connection_log_self, call_of_mSocket hsocket, hsame]
    exact hself
  · intro other hne
    refine ⟨?_, hsame other, hothers other hne⟩
    rw [connection_goto, connection_store_of_ne hne, connection_log_of_ne hne,
      connection_popped_of_ne hne hcopy, haway other hne, ← away_of_phase hpc other]

theorem InOrder.flush (h : s.InOrder asked) (inv : s.Inv) (hpc : s.pc = .phase .after)
    (hcopy : s.mCopyAfterLoopProcs = .socket ds .flush :: procs) :
    (((s.popped procs).log ds (.ran .flush)).flush ds).InOrder asked := by
  have hprocs := procsOf_popped hcopy
  obtain ⟨d, hd, -⟩ := inv.live_of_proc (by rw [hprocs]; simp)
  have hd' : ((s.popped procs).log ds (.ran .flush)).heap ds = some d := hd
  simp only [IOLoop.flush, withSocket, hd']
  split
  next hleave =>
    refine h.ran hpc hcopy rfl (fun other _ => away_of_phase hpc other)
      (callsOf_of_phase hpc) ?_ (fun _ _ => rfl)
    refine (h ds).pop hprocs (by simp) ⟨rfl, rfl⟩ ?_
    intro e he hopen
    cases he
    refine ⟨?_, d, hd, hopen, rfl, rfl, rfl⟩
    have hcannot : d.mCanWrite = false := by
      have hsome : d.mSocket.isSome = true := hopen
      simpa [Option.isNone_iff_eq_none, Option.ne_none_iff_isSome.mpr hsome] using hleave
    have haway : ((s.popped procs).log ds (.ran .flush)).pc.activity ds = .away :=
      away_of_phase hpc ds
    simp [hcannot, haway, Activity.isFlushing]
  next hgo =>
    refine h.ran hpc hcopy rfl (fun other hne => activity_of_ne rfl hne) (fun _ => rfl) ?_
      (fun _ _ => rfl)
    refine (h ds).pop hprocs (by simp) ⟨rfl, rfl⟩ ?_
    intro e he hopen
    cases he
    refine ⟨?_, d, hd, hopen, rfl, rfl, rfl⟩
    have hself : (IOLoopPc.quickFlush ds).activity ds = .writing := activity_self rfl
    simp only [Bool.or_eq_true, Bool.not_eq_true', not_or, Bool.not_eq_false] at hgo
    simp [hgo.1, hself, Activity.isFlushing]

/-- The socket of the next shutdown closure is closed, or it can be written, or it
has nothing to send and is not armed. -/
def drained (d : DataSocket) : Bool :=
  d.mSocket.isNone || d.mCanWrite || (d.mSendList.isEmpty && !d.epollOut)

theorem InOrder.shutdown (h : s.InOrder asked) (inv : s.Inv) (hpc : s.pc = .phase .after)
    (hcopy : s.mCopyAfterLoopProcs = .socket ds .shutdown :: procs)
    (hdrained : (s.heap ds).all drained = true) (hself : asked' ds = (asked ds).tail)
    (hothers : ∀ other, other ≠ ds → asked' other = asked other) :
    (((s.popped procs).log ds (.ran .shutdown)).callSocket ds
      fun d => (d.procShutdownInLoop, [])).InOrder asked' := by
  have hprocs := procsOf_popped hcopy
  obtain ⟨d, hd, -⟩ := inv.live_of_proc (by rw [hprocs]; simp)
  have hd' : ((s.popped procs).log ds (.ran .shutdown)).heap ds = some d := hd
  have hsocket : d.procShutdownInLoop.mSocket = d.mSocket := by
    unfold DataSocket.procShutdownInLoop
    split <;> rfl
  simp only [callSocket, withSocket, hd']
  refine h.ran hpc hcopy hsocket (fun other _ => away_of_phase hpc other)
      (callsOf_of_phase hpc) ?_ hothers
  rw [hself]
  refine (h ds).shutdown hprocs hd ?_ ⟨rfl, rfl⟩ rfl (away_of_phase hpc ds)
  intro hopen
  rw [hd, Option.all_some, drained, Option.isNone_eq_false_iff.mpr hopen] at hdrained
  simp only [Bool.false_or, Bool.or_eq_true, Bool.and_eq_true, Bool.not_eq_true'] at hdrained
  exact hdrained.imp id And.right

theorem InOrder.disConnect (h : s.InOrder asked) (inv : s.Inv) (hpc : s.pc = .phase .after)
    (hcopy : s.mCopyAfterLoopProcs = .socket ds .disConnect :: procs) :
    (((s.popped procs).log ds (.ran .disConnect)).disConnect ds).InOrder asked := by
  have hprocs := procsOf_popped hcopy
  obtain ⟨d, hd, hentered⟩ := inv.live_of_proc (by rw [hprocs]; simp)
  have hd' : ((s.popped procs).log ds (.ran .disConnect)).heap ds = some d := hd
  obtain ⟨sid, hud⟩ := Option.isSome_iff_exists.mp (((inv.wf ds).posted d hd).entered hentered)
  simp only [IOLoop.disConnect, withSocket, hd', hud]
  have haway := away_of_phase hpc
  have hclosed : d.mSocket = none := by
    have hposted := (inv.wf ds).posted d hd
    rw [haway, show (s.connection ds).procs = _ from hprocs] at hposted
    exact hposted.disConnect.1
  have hclose : ∀ other, (((s.popped procs).log ds (.ran .disConnect)).procDataSocketClose
      sid).connection other = ((s.popped procs).log ds (.ran .disConnect)).connection other :=
    fun _ => rfl
  have hcalls (other : Ptr) : callsOf (((((s.popped procs).log ds (.ran
      .disConnect)).procDataSocketClose sid).log ds .disConnectCallback).goto
      (.disConnectCallback ds)) other = s.callsOf other := by
    rw [callsOf, callsOf, hpc]
    rfl
  refine h.at_socket ds ?_ ?_
  · rw [connection_goto, connection_log_self, hclose, connection_log_self, hcalls]
    refine (h ds).pop hprocs (by simp) ⟨rfl, rfl⟩ ?_
    intro e he hopen
    have heq : s.heap ds = some e := he
    rw [hd, Option.some.injEq] at heq
    rw [← heq, hclosed] at hopen
    cases hopen
  · intro other hne
    refine ⟨?_, hcalls other, rfl⟩
    rw [connection_goto, connection_log_of_ne hne, hclose, connection_log_of_ne hne,
      connection_popped_of_ne hne hcopy, activity_of_ne rfl hne, ← haway other]

/-- A closure of the user is taken out. -/
theorem calm_user (hpc : s.pc = .phase .after) (hcopy : s.mCopyAfterLoopProcs = .user :: procs) :
    Calm s ((s.popped procs).goto (.userCode .after)) := by
  have hfrom : s.pc.socket? = none := by rw [hpc]; rfl
  refine .of_same (fun ds => ?_) (fun ds => ?_)
  · have hprocs : (s.popped procs).procsOf ds = s.procsOf ds := by
      rw [procsOf, procsOf, hcopy]
      rfl
    rw [← connection_of_away (.userCode .after) hfrom rfl ds]
    simp only [connection, goto]
    exact congrArg (Connection.mk _ · _ _ _ _) hprocs
  · rw [callsOf, callsOf, hpc]
    rfl

end Pop

/-! ## New objects -/

theorem InOrder.newSocket (h : s.InOrder asked) (inv : s.Inv) {socket : Sock}
    {maxRecvBufferSize : ℕ} (hnew : s.newSocket malloc socket maxRecvBufferSize = some (ds, s')) :
    s'.InOrder asked ∧ s'.pc = s.pc := by
  unfold IOLoop.newSocket at hnew
  split at hnew
  · cases hnew
  · obtain ⟨d, hmade, heq⟩ := Option.map_eq_some_iff.mp hnew
    rw [Prod.mk.injEq] at heq
    obtain ⟨rfl, rfl⟩ := heq
    have habsent := inv.refs.fresh s.nextPtr (Nat.le_refl _)
    have hfresh : s.heap s.nextPtr = none := congrArg Connection.socket habsent
    have hidle : d.epollOut = false ∧ d.shutWr = false := by
      obtain ⟨buffer, -, rfl⟩ := Option.map_eq_some_iff.mp hmade
      exact ⟨rfl, rfl⟩
    -- No event of the new object can have been reported.
    have hnone : s.callsOf s.nextPtr = [] := by
      have hentries : (s.entries.filter fun entry => entry.ds = s.nextPtr) = [] := by
        rw [List.filter_eq_nil_iff]
        intro entry hentry hds
        rw [decide_eq_true_eq] at hds
        obtain ⟨e, he, -⟩ := inv.refs.entries entry hentry
        rw [hds, hfresh] at he
        cases he
      have hpc : s.pc.callsOf s.nextPtr = [] :=
        callsOf_of_away (congrArg Connection.activity habsent)
      rw [callsOf, hentries, hpc]
      rfl
    refine ⟨h.at_socket s.nextPtr ?_ ?_, rfl⟩
    · have hcreated : ({ s with
          heap := Function.update s.heap s.nextPtr (some d), nextPtr := s.nextPtr + 1 }
          : IOLoop).connection s.nextPtr = { Connection.absent with socket := some d } := by
        rw [← habsent]
        simp only [connection, procsOf, historyOf, Function.update_self]
      have hself := h s.nextPtr
      rw [habsent, hnone] at hself
      rw [hcreated]
      change Connection.InOrder _ _ (s.callsOf s.nextPtr)
      rw [hnone]
      exact hself.created hidle.1 hidle.2 (by simp)
    · intro other hne
      refine ⟨?_, rfl, rfl⟩
      simp only [connection, procsOf, historyOf, Function.update_of_ne hne]

end IOLoop

end Brynet
