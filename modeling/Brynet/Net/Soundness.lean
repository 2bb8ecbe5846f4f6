import Brynet.Net.Simulation

/-!
# Every step of the loop is sound

One lemma for each action of the loop, of user code and of the other threads, and
`Inv.sound_next` puts them together.
-/

namespace Brynet

open MachineInt Memory Transition

namespace DataSocket

variable {d d' : DataSocket} {malloc : Allocator}

theorem Quiet.call (h : Quiet d d') : d.Call (d', []) := by
  obtain ⟨buffer, recvData, rfl⟩ := h
  exact .quiet buffer recvData d.mCheckTime d.mTimer

theorem Quiet.sameTags (h : Quiet d d') : IOLoop.SameTags d d' := by
  obtain ⟨buffer, recvData, rfl⟩ := h
  exact ⟨rfl, rfl, rfl⟩

theorem call_procCloseInLoop (d : DataSocket) : d.Call d.procCloseInLoop := by
  unfold procCloseInLoop
  split
  · exact .quiet d.mRecvBuffer d.mRecvData d.mCheckTime d.mTimer
  · exact .onClose

theorem sameTags_procCloseInLoop (d : DataSocket) : IOLoop.SameTags d d.procCloseInLoop.1 := by
  unfold procCloseInLoop onClose closeSocket
  repeat' split
  all_goals exact ⟨rfl, rfl, rfl⟩

end DataSocket

namespace IOLoop

variable {s s' : IOLoop} {ds : Ptr} {d : DataSocket} {rest : List ChannelCall}
  {malloc : Allocator} {loopIndex : ℕ}

/-! ## Receiving -/

theorem part_of_handling {pc : IOLoopPc} (h : pc.doing = .handling) : pc.part = .events := by
  cases pc with
  | calls | recv | dataCallback => rfl
  | phase | userCode | quickFlush | erase | completeCallback | disConnectCallback => cases h

/-- A call made while the loop thread handles an event of `ds`. -/
theorem Inv.sound_handling (inv : s.Inv) {pc : IOLoopPc} (hd : s.heap ds = some d)
    (hfrom : s.pc.socket? = some ds) (hdoing : s.pc.doing = .handling)
    (hto : pc.socket? = some ds) (hdoing' : pc.doing = .handling)
    {result : DataSocket × List AfterProc} (hcall : d.Call result)
    (htags : SameTags d result.1) : Sound s ((s.store ds d result).goto pc) := by
  have hactivity : (s.connection ds).activity = .handling := by
    change s.pc.activity ds = .handling
    rw [activity_self hfrom, hdoing]
  have hentered := ((inv.wf ds).posted d hd).entered_of_ne_away (by simp [hactivity])
  have hclosing : ∀ ds, pc ≠ .disConnectCallback ds := by
    rintro ds rfl
    cases hdoing'
  refine inv.sound_storeGoto hd htags (.of_socket hfrom hto
    ((part_of_handling hdoing').trans (part_of_handling hdoing).symm) hclosing) ?_
  have hsame : { (s.connection ds).call d result with activity := pc.activity ds } =
      (s.connection ds).call d result := by
    rw [activity_self hto, hdoing', ← hactivity]
    rfl
  rw [hsame]
  exact .single (.called hd hentered (by simp [hactivity]) hcall)

/-- The loop thread moves on in the event of `ds`. -/
theorem Inv.sound_handling_goto (inv : s.Inv) {pc : IOLoopPc} (hfrom : s.pc.socket? = some ds)
    (hdoing : s.pc.doing = .handling) (hto : pc.socket? = some ds)
    (hdoing' : pc.doing = .handling) : Sound s (s.goto pc) := by
  obtain ⟨d, hd, -⟩ := inv.live_of_pc hfrom (by simp [hdoing])
  have hclosing : ∀ ds, pc ≠ .disConnectCallback ds := by
    rintro ds rfl
    cases hdoing'
  refine inv.sound_goto hd (.of_socket hfrom hto
    ((part_of_handling hdoing').trans (part_of_handling hdoing).symm) hclosing) ?_
  have hsame : { s.connection ds with activity := pc.activity ds } = s.connection ds := by
    rw [activity_self hto, hdoing', ← hdoing, ← activity_self hfrom]
    rfl
  rw [hsame]

theorem Inv.sound_channelCall (inv : s.Inv) (hpc : s.pc = .calls ds rest) :
    Sound s (s.channelCall ds rest) := by
  have hfrom : s.pc.socket? = some ds := by rw [hpc]; rfl
  have hdoing : s.pc.doing = .handling := by rw [hpc]; rfl
  obtain ⟨d, hd, -⟩ := inv.live_of_pc hfrom (by simp [hdoing])
  cases rest with
  | nil =>
      refine inv.sound_goto hd (.away hfrom (part_of_handling hdoing).symm) (.single (.handled ?_))
      exact (activity_self hfrom).trans hdoing
  | cons call rest =>
      cases call with
      | canRecv => exact inv.sound_handling_goto hfrom hdoing rfl rfl
      | canSend =>
          simp only [channelCall, callSocket, withSocket, hd]
          refine inv.sound_handling hd hfrom hdoing rfl rfl .canSend ?_
          unfold DataSocket.canSend DataSocket.removeCheckWrite
          rw [SameTags, DataSocket.runAfterFlush_fst]
          split <;> exact ⟨rfl, rfl, rfl⟩
      | onClose =>
          simp only [channelCall, callSocket, withSocket, hd]
          refine inv.sound_handling hd hfrom hdoing rfl rfl .onClose ?_
          unfold DataSocket.onClose DataSocket.closeSocket
          repeat' split
          all_goals exact ⟨rfl, rfl, rfl⟩

/-- A fault that is not the use of a deleted object. -/
theorem Inv.sound_fault (inv : s.Inv) {fault : Fault} (hfault : fault ≠ .useAfterFree) :
    Sound s { s with fault := some fault } := by
  refine ⟨?_, fun _ => .refl, by simpa using hfault⟩
  exact ⟨inv.refs.fresh, inv.refs.entries_part, inv.refs.async_part, inv.refs.after_part,
    inv.refs.slots, inv.refs.timers, inv.refs.entering, inv.refs.entering_nodup, inv.refs.entries⟩

theorem Inv.sound_afterRecv (inv : s.Inv) {tryRecvLen : ℕ} (hpc : s.pc = .recv ds rest)
    (hd : s.heap ds = some d) (htry : d.tryRecvLen = some tryRecvLen) (r : RecvResult) :
    Sound s (s.afterRecv malloc ds d rest tryRecvLen r) := by
  have hfrom : s.pc.socket? = some ds := by rw [hpc]; rfl
  have hdoing : s.pc.doing = .handling := by rw [hpc]; rfl
  have hopen : d.mSocket.isSome = true := by
    unfold DataSocket.tryRecvLen at htry
    split at htry
    · rename_i hcond
      exact (Bool.and_eq_true_iff.mp hcond).1
    · cases htry
  cases r with
  | data bytes =>
      simp only [afterRecv]
      split
      · exact inv.sound_fault (by simp)
      · rename_i arrived harrived
        have hquiet := DataSocket.quiet_recvArrived harrived
        split
        -- The buffer is stored, the call recorded, and the loop thread enters the callback.
        · have hstore := inv.sound_handling hd hfrom hdoing hfrom hdoing hquiet.call hquiet.sameTags
          have hgoto : (s.store ds d (arrived, [])).goto s.pc = s.store ds d (arrived, []) := rfl
          rw [hgoto] at hstore
          have inv' := inv.sound hstore
          have hd' : (s.store ds d (arrived, [])).heap ds = some arrived :=
            Function.update_self ..
          have hopen' : arrived.mSocket.isSome = true := by
            obtain ⟨_, _, rfl⟩ := hquiet
            exact hopen
          have hlog := inv'.sound_log hd' (.received hd' hopen'
            ((activity_self hfrom).trans hdoing))
          exact hstore.trans (hlog.trans ((inv'.sound hlog).sound_handling_goto hfrom hdoing rfl rfl))
        · obtain ⟨buffer, recvData, rfl⟩ := hquiet
          obtain ⟨buffer', recvData', hadjust⟩ := DataSocket.quiet_recvAdjust
            { d with mRecvBuffer := buffer, mRecvData := recvData }
          have hquiet' : DataSocket.Quiet d (DataSocket.recvUncalled
              { d with mRecvBuffer := buffer, mRecvData := recvData } bytes.length tryRecvLen).1 :=
            ⟨buffer', recvData', hadjust⟩
          refine inv.sound_handling hd hfrom hdoing ?_ ?_ hquiet'.call hquiet'.sameTags
          all_goals split <;> rfl
  | wouldBlock => exact inv.sound_handling_goto hfrom hdoing rfl rfl
  | eof | error =>
      exact inv.sound_handling hd hfrom hdoing rfl rfl d.call_procCloseInLoop
        d.sameTags_procCloseInLoop

theorem Inv.sound_dataReturn (inv : s.Inv) {retlen tryRecvLen : ℕ} (proclen : ℕ)
    (hpc : s.pc = .dataCallback ds retlen tryRecvLen rest) (hd : s.heap ds = some d) :
    Sound s ((s.store ds d ((d.recvReturned proclen retlen tryRecvLen).1, [])).goto
      (if (d.recvReturned proclen retlen tryRecvLen).2 then .recv ds rest else .calls ds rest)) := by
  have hfrom : s.pc.socket? = some ds := by rw [hpc]; rfl
  have hdoing : s.pc.doing = .handling := by rw [hpc]; rfl
  have hquiet := d.quiet_recvReturned proclen retlen tryRecvLen
  refine inv.sound_handling hd hfrom hdoing ?_ ?_ hquiet.call hquiet.sameTags
  all_goals split <;> rfl

/-! ## Flushing -/

/-- A call that posts nothing and does not close. -/
theorem call_of_mSocket {c : Connection} {d' : DataSocket} (h : d'.mSocket = d.mSocket) :
    c.call d (d', []) = { c with socket := some d' } := by
  have hno : (d.mSocket.isSome && d.mSocket.isNone) = false := by
    cases d.mSocket <;> rfl
  simp [Connection.call, h, hno]

/-- A part of `quickFlush` that changes the socket to `d'` and goes to `pc`. -/
theorem Inv.sound_flushing (inv : s.Inv) {pc : IOLoopPc} {d' : DataSocket}
    (hd : s.heap ds = some d) (htags : SameTags d d') (hsocket : d'.mSocket = d.mSocket)
    (hmoves : Moves s ds pc)
    (hsteps : (s.connection ds).Steps
      { s.connection ds with socket := some d', activity := pc.activity ds }) :
    Sound s ((s.store ds d (d', [])).goto pc) := by
  refine inv.sound_storeGoto hd htags hmoves ?_
  rwa [call_of_mSocket hsocket]

theorem Inv.sound_flushLeave (inv : s.Inv) (hpc : s.pc = .quickFlush ds)
    (hd : s.heap ds = some d) (hempty : d.mSendList = []) : Sound s (s.goto (.phase .after)) := by
  have hfrom : s.pc.socket? = some ds := by rw [hpc]; rfl
  refine inv.sound_goto hd (.away hfrom (by rw [hpc]; rfl)) (.single (.flushLeft hd ?_ (.inl hempty)))
  change s.pc.activity ds = .writing
  rw [activity_self hfrom, hpc]
  rfl

theorem Inv.sound_afterWritev (inv : s.Inv) (hpc : s.pc = .quickFlush ds)
    (hd : s.heap ds = some d) (hopen : d.mSocket.isSome = true) {r : WritevResult}
    (hvalid : r.valid d.offered.length = true) : Sound s (s.afterWritev ds d r) := by
  have hfrom : s.pc.socket? = some ds := by rw [hpc]; rfl
  have hpart : LoopPhase.after = s.pc.part := by rw [hpc]; rfl
  have hactivity : (s.connection ds).activity = .writing := by
    change s.pc.activity ds = .writing
    rw [activity_self hfrom, hpc]
    rfl
  have hentered := ((inv.wf ds).posted d hd).entered_of_ne_away (by simp [hactivity])
  cases r with
  | accepted count =>
      simp only [WritevResult.valid, Bool.and_eq_true, decide_eq_true_eq] at hvalid
      obtain ⟨⟨-, hcount⟩, hmax⟩ := hvalid
      -- The count goes through an `int` and back, and the kernel writes less than that holds.
      have hsmall : ofInt32 (toInt32 count) = count := by
        rw [toInt32_eq (by unfold maxRwCount at hmax; omega), ofInt32_natCast]
        unfold maxRwCount at hmax
        omega
      simp only [afterWritev, hsmall]
      refine inv.sound_of_local ⟨?_, ?_⟩ (.of_heap rfl) ?_ (inv.refs.lt_of_heap hd) rfl
      · intro other hne
        have hother : (IOLoopPc.erase ds count
            (decide (toInt32 count = d.readySendLen))).activity other = s.pc.activity other := by
          rw [activity_of_ne rfl hne, activity_of_ne hfrom hne]
        simp only [connection, procsOf, historyOf, goto, hother, Function.update_of_ne hne]
      · refine .single ?_
        have hself : (IOLoopPc.erase ds count
            (decide (toInt32 count = d.readySendLen))).activity ds =
            .erasing count (decide (toInt32 count = d.readySendLen)) := activity_self rfl
        have hstep := Connection.Step.accepted (decide (toInt32 count = d.readySendLen)) hd
          hactivity hcount
        simpa only [connection, procsOf, historyOf, goto, hself, Function.update_self] using hstep
      · exact ⟨rfl, rfl, rfl, rfl, rfl, rfl, hpart, fun _ => rfl, by simp [goto]⟩
  | wouldBlock =>
      exact inv.sound_flushing hd ⟨rfl, rfl, rfl⟩ rfl (.away hfrom hpart)
        (.single (.blocked hd hactivity hopen))
  | error =>
      refine inv.sound_storeGoto hd d.sameTags_procCloseInLoop (.away hfrom hpart) ?_
      -- The socket is closed first, and the flush is left because of that.
      have hcall : d.Call (d.leaveLoop true) := d.call_procCloseInLoop
      refine .tail (.single (.called hd hentered (by simp [hactivity]) hcall))
        (.flushLeft rfl hactivity (.inr ?_))
      have hfinal := ((inv.wf ds).posted d hd).final
      have hnone : d.mSocket.isNone = false := by
        rw [← Option.not_isSome, hopen]
        rfl
      rw [hnone] at hfinal
      simp [DataSocket.leaveLoop, DataSocket.procCloseInLoop, DataSocket.onClose,
        DataSocket.closeSocket, hnone, hfinal, hopen]

/-- The end of the erase loop. -/
theorem Inv.sound_afterErase (inv : s.Inv) {tmpLen : ℕ} {full : Bool}
    (hfrom : s.pc.socket? = some ds) (hdoing : s.pc.doing = .erasing tmpLen full)
    (hpart : LoopPhase.after = s.pc.part) (hd : s.heap ds = some d)
    (hend : d.mSendList = [] ∨ tmpLen = 0) : Sound s (s.afterErase ds d full) := by
  have hactivity : (s.connection ds).activity = .erasing tmpLen full :=
    (activity_self hfrom).trans hdoing
  unfold afterErase
  split
  · rename_i hfull
    subst hfull
    refine inv.sound_goto hd (.of_socket hfrom rfl hpart (by simp)) ?_
    have hself : (IOLoopPc.quickFlush ds).activity ds = .writing := activity_self rfl
    rw [hself]
    exact .single (.writeMore hd hactivity hend)
  · rename_i hfull
    rw [Bool.not_eq_true] at hfull
    subst hfull
    split
    · exact inv.sound_fault (by simp)
    · rename_i hopen
      refine inv.sound_flushing hd ⟨rfl, rfl, rfl⟩ rfl (.away hfrom hpart) (.single ?_)
      refine .partly hd hactivity hend ?_
      simpa [Option.isSome_iff_ne_none] using hopen

theorem Inv.sound_eraseTurn (inv : s.Inv) {tmpLen : ℕ} {full : Bool}
    (hpc : s.pc = .erase ds tmpLen full) : Sound s (s.eraseTurn ds tmpLen full) := by
  have hfrom : s.pc.socket? = some ds := by rw [hpc]; rfl
  have hdoing : s.pc.doing = .erasing tmpLen full := by rw [hpc]; rfl
  have hpart : LoopPhase.after = s.pc.part := by rw [hpc]; rfl
  have hactivity : (s.connection ds).activity = .erasing tmpLen full :=
    (activity_self hfrom).trans hdoing
  obtain ⟨d, hd, -⟩ := inv.live_of_pc hfrom (by simp [hdoing])
  simp only [eraseTurn, withSocket, hd]
  split
  · rename_i hempty
    exact inv.sound_afterErase hfrom hdoing hpart hd (.inl hempty)
  · rename_i packet rest hlist
    split
    · rename_i hlt
      have hsocket : (d.shrinkFront tmpLen).mSocket = d.mSocket := by
        simp [DataSocket.shrinkFront, hlist]
      have htags : SameTags d (d.shrinkFront tmpLen) := by
        simp [SameTags, DataSocket.shrinkFront, hlist]
      have hmoves : Moves s ds (.erase ds 0 full) := .of_socket hfrom rfl hpart (by simp)
      have hself : (IOLoopPc.erase ds 0 full).activity ds = .erasing 0 full := activity_self rfl
      have hshrink := inv.sound_flushing hd htags hsocket hmoves
        (.single (hself ▸ .shrunk hd hactivity hlist hlt))
      exact hshrink.trans ((inv.sound hshrink).sound_afterErase rfl rfl rfl (Function.update_self ..)
        (.inr rfl))
    · rename_i hge
      have hle : packet.left ≤ tmpLen := Nat.le_of_not_lt hge
      split
      · refine inv.sound_goto hd (.of_socket hfrom rfl hpart (by simp)) ?_
        have hself : (IOLoopPc.completeCallback ds (tmpLen - packet.left) full
            d.mSendList.length).activity ds = .completing (tmpLen - packet.left) full :=
          activity_self rfl
        rw [hself]
        exact .single (.complete hd hactivity hlist hle)
      · refine inv.sound_flushing hd ⟨rfl, rfl, rfl⟩ rfl (.of_socket hfrom rfl hpart (by simp)) ?_
        have hself : (IOLoopPc.erase ds (tmpLen - packet.left) full).activity ds =
            .erasing (tmpLen - packet.left) full := activity_self rfl
        rw [hself]
        exact .single (.erased hd hactivity hlist hle)

theorem Inv.sound_completeReturn (inv : s.Inv) {tmpLen : ℕ} {full : Bool} {size : ℕ}
    (hpc : s.pc = .completeCallback ds tmpLen full size) :
    Sound s ((s.callSocket ds fun d => (d.eraseFront, [])).goto (.erase ds tmpLen full)) := by
  have hfrom : s.pc.socket? = some ds := by rw [hpc]; rfl
  have hdoing : s.pc.doing = .completing tmpLen full := by rw [hpc]; rfl
  have hpart : LoopPhase.after = s.pc.part := by rw [hpc]; rfl
  obtain ⟨d, hd, -⟩ := inv.live_of_pc hfrom (by simp [hdoing])
  simp only [callSocket, withSocket, hd]
  refine inv.sound_flushing hd ⟨rfl, rfl, rfl⟩ rfl (.of_socket hfrom rfl hpart (by simp)) ?_
  have hself : (IOLoopPc.erase ds tmpLen full).activity ds = .erasing tmpLen full :=
    activity_self rfl
  rw [hself]
  exact .single (.completed hd ((activity_self hfrom).trans hdoing))

/-! ## After-loop procs -/

section Pop

variable {proc : AfterProc} {procs : List LoopProc}

/-- The state in which the first of the copied after-loop procs was taken out. -/
def popped (s : IOLoop) (procs : List LoopProc) : IOLoop :=
  { s with mCopyAfterLoopProcs := procs }

theorem procsOf_popped (hcopy : s.mCopyAfterLoopProcs = .socket ds proc :: procs) :
    s.procsOf ds = proc :: (s.popped procs).procsOf ds := by
  have hself : LoopProc.of? ds (.socket ds proc) = some proc := if_pos rfl
  rw [procsOf, hcopy, List.cons_append, List.filterMap_cons_some hself]
  rfl

theorem connection_popped_of_ne {other : Ptr} (hne : other ≠ ds)
    (hcopy : s.mCopyAfterLoopProcs = .socket ds proc :: procs) :
    (s.popped procs).connection other = s.connection other := by
  have hother : LoopProc.of? other (.socket ds proc) = none := if_neg hne.symm
  have hprocs : s.procsOf other = (s.popped procs).procsOf other := by
    rw [procsOf, hcopy, List.cons_append, List.filterMap_cons_none hother]
    rfl
  simp only [connection, hprocs]
  rfl

/-- The owner of a queued closure is alive and has entered. -/
theorem Inv.live_of_proc (inv : s.Inv) (hprocs : s.procsOf ds ≠ []) :
    ∃ d, s.heap ds = some d ∧ d.mEventLoop = true := by
  cases hd : s.heap ds with
  | none => exact absurd ((inv.wf ds).gone hd).1 hprocs
  | some d => exact ⟨d, rfl, ((inv.wf ds).posted d hd).entered_of_proc hprocs⟩

/-- A flush or shutdown closure that leaves its socket as `d'` and goes to `pc`. -/
theorem Inv.sound_ran (inv : s.Inv) {pc : IOLoopPc} {d' : DataSocket}
    (hcopy : s.mCopyAfterLoopProcs = .socket ds proc :: procs) (hd : s.heap ds = some d)
    (htags : SameTags d d') (hsocket : d'.mSocket = d.mSocket) (hmoves : Moves s ds pc)
    (hstep : Connection.Step (s.connection ds)
      { (s.connection ds).log (.ran proc) with
        socket := some d', procs := (s.popped procs).procsOf ds, activity := pc.activity ds }) :
    Sound s ((((s.popped procs).log ds (.ran proc)).store ds d (d', [])).goto pc) := by
  refine inv.sound_of_local ⟨?_, ?_⟩ (.update rfl hd htags.1 htags.2.1 htags.2.2) ?_
    (inv.refs.lt_of_heap hd) rfl
  · intro other hne
    rw [connection_goto, connection_store_of_ne hne, connection_log_of_ne hne,
      connection_popped_of_ne hne hcopy, hmoves.others other hne]
    rfl
  · rw [connection_goto, connection_store_self, connection_log_self, call_of_mSocket hsocket]
    exact .single hstep
  · have hafter : s.pc.part = .after := inv.refs.after_part (by simp [hcopy])
    exact ⟨rfl, rfl, rfl, rfl, rfl, rfl, hmoves.part, fun _ => hmoves.part.trans hafter,
      fun ds hpc => absurd hpc (hmoves.closing ds)⟩

theorem Inv.sound_flush (inv : s.Inv) (hpc : s.pc = .phase .after)
    (hcopy : s.mCopyAfterLoopProcs = .socket ds .flush :: procs) :
    Sound s (((s.popped procs).log ds (.ran .flush)).flush ds) := by
  have hprocs := procsOf_popped hcopy
  obtain ⟨d, hd, -⟩ := inv.live_of_proc (by rw [hprocs]; simp)
  have hd' : ((s.popped procs).log ds (.ran .flush)).heap ds = some d := hd
  have haway := away_of_phase hpc ds
  have hstep := Connection.Step.flush hd haway hprocs
  have htags : SameTags d { d with mIsPostFlush := false } := ⟨rfl, rfl, rfl⟩
  simp only [flush, withSocket, hd']
  split
  · rename_i hleave
    rw [if_pos hleave] at hstep
    have hmoves : Moves s ds s.pc := ⟨rfl, by simp [hpc], fun _ _ => rfl⟩
    rw [← haway] at hstep
    exact inv.sound_ran hcopy hd htags rfl hmoves hstep
  · rename_i hgo
    rw [if_neg hgo] at hstep
    have hmoves : Moves s ds (.quickFlush ds) := by
      refine ⟨by rw [hpc]; rfl, by simp, ?_⟩
      intro other hne
      rw [activity_of_ne rfl hne, hpc, activity_phase]
    refine inv.sound_ran hcopy hd htags rfl hmoves ?_
    have hself : (IOLoopPc.quickFlush ds).activity ds = .writing := activity_self rfl
    rwa [hself]

theorem Inv.sound_shutdown (inv : s.Inv) (hpc : s.pc = .phase .after)
    (hcopy : s.mCopyAfterLoopProcs = .socket ds .shutdown :: procs) :
    Sound s (((s.popped procs).log ds (.ran .shutdown)).callSocket ds
      fun d => (d.procShutdownInLoop, [])) := by
  have hprocs := procsOf_popped hcopy
  obtain ⟨d, hd, -⟩ := inv.live_of_proc (by rw [hprocs]; simp)
  have hd' : ((s.popped procs).log ds (.ran .shutdown)).heap ds = some d := hd
  have haway := away_of_phase hpc ds
  have hstep := Connection.Step.shutdown hd haway hprocs
  have hsame : SameTags d d.procShutdownInLoop ∧ d.procShutdownInLoop.mSocket = d.mSocket := by
    unfold DataSocket.procShutdownInLoop
    split <;> exact ⟨⟨rfl, rfl, rfl⟩, rfl⟩
  have hmoves : Moves s ds s.pc := ⟨rfl, by simp [hpc], fun _ _ => rfl⟩
  simp only [callSocket, withSocket, hd']
  exact inv.sound_ran hcopy hd hsame.1 hsame.2 hmoves hstep

/-- The slot of the closed session is empty, the others are as they were. -/
theorem get_procDataSocketClose {data : IOLoopData} {sid : SessionId} {index : ℕ} {owner : Ptr}
    (hget : (data.procDataSocketClose sid).mDataSockets.get index = some (some owner)) :
    index ≠ sid.index.toNat ∧ data.mDataSockets.get index = some (some owner) := by
  have hset : (data.mDataSockets.set none sid.index.toNat).get index = some (some owner) := hget
  by_cases heq : index = sid.index.toNat
  · subst heq
    simp [TypeIDS.get, TypeIDS.set, List.getElem?_set] at hset
  · rw [TypeIDS.get_set_of_ne heq] at hset
    exact ⟨heq, hset⟩

theorem Inv.sound_disConnect (inv : s.Inv) (hpc : s.pc = .phase .after)
    (hcopy : s.mCopyAfterLoopProcs = .socket ds .disConnect :: procs) :
    Sound s (((s.popped procs).log ds (.ran .disConnect)).disConnect ds) := by
  have hprocs := procsOf_popped hcopy
  obtain ⟨d, hd, hentered⟩ := inv.live_of_proc (by rw [hprocs]; simp)
  have hd' : ((s.popped procs).log ds (.ran .disConnect)).heap ds = some d := hd
  have haway := away_of_phase hpc ds
  obtain ⟨sid, hud⟩ := Option.isSome_iff_exists.mp (((inv.wf ds).posted d hd).entered hentered)
  simp only [disConnect, withSocket, hd', hud]
  have hclose : ∀ other, (((s.popped procs).log ds (.ran .disConnect)).procDataSocketClose
      sid).connection other = ((s.popped procs).log ds (.ran .disConnect)).connection other :=
    fun _ => rfl
  have hlocal : Local s (((((s.popped procs).log ds (.ran .disConnect)).procDataSocketClose
      sid).log ds .disConnectCallback).goto (.disConnectCallback ds)) ds := by
    refine ⟨?_, .single ?_⟩
    · intro other hne
      rw [connection_goto, connection_log_of_ne hne, hclose, connection_log_of_ne hne,
        connection_popped_of_ne hne hcopy, activity_of_ne rfl hne]
      rw [← away_of_phase hpc other]
    · have hself : (IOLoopPc.disConnectCallback ds).activity ds = .closing := activity_self rfl
      rw [connection_goto, connection_log_self, hclose, connection_log_self, hself]
      exact .disConnect hd haway hprocs
  refine ⟨⟨?_, ?_, ?_, fun _ => rfl, ?_, inv.refs.timers, inv.refs.entering,
    inv.refs.entering_nodup, inv.refs.entries⟩, hlocal.all, inv.fault⟩
  · intro other hother
    have hlt := inv.refs.lt_of_heap hd
    rw [hlocal.others other (hlt.trans_le hother).ne']
    exact inv.refs.fresh other hother
  · intro hne
    have hpart := inv.refs.entries_part hne
    rw [hpc] at hpart
    cases hpart
  · intro hne
    have hpart := inv.refs.async_part hne
    rw [hpc] at hpart
    cases hpart
  -- The slot of the session has been cleared, so no slot leads to the object now.
  · intro index owner hget
    obtain ⟨hindex, hold⟩ := get_procDataSocketClose hget
    obtain ⟨-, d', sid', hd', hud', hindex'⟩ := inv.refs.slots index owner hold
    refine ⟨?_, d', sid', hd', hud', hindex'⟩
    intro hclosing
    cases hclosing
    rw [hd, Option.some.injEq] at hd'
    subst hd'
    rw [hud, Option.some.injEq] at hud'
    subst hud'
    exact hindex hindex'.symm

end Pop

/-! ## Timers and deletion -/

theorem timerAlive_of_mem {timer : PingTimer} (hmem : timer ∈ s.timers) (held : Option ℕ) :
    s.timerAlive held (some timer.id) = true := by
  have hany : s.timers.any (fun other => some other.id == some timer.id) = true :=
    List.any_eq_true.mpr ⟨timer, hmem, by simp⟩
  rw [timerAlive, hany]
  simp

theorem mem_of_mem_cancelTimer {timer : PingTimer} {id : Option ℕ}
    (hmem : timer ∈ (s.cancelTimer id).timers) (hactive : timer.mActive = true) :
    timer ∈ s.timers ∧ some timer.id ≠ id := by
  obtain ⟨old, hold, rfl⟩ := List.mem_map.mp hmem
  split at hactive
  · cases hactive
  · rename_i hne
    rw [if_neg hne]
    exact ⟨hold, hne⟩

/-- The state after the timer of a socket was cancelled, if it could be locked. -/
def timerReset (s : IOLoop) (d : DataSocket) : IOLoop :=
  if s.timerAlive none d.mTimer then s.cancelTimer d.mTimer else s

/-- After that no active timer is left that belongs to the socket. -/
theorem mem_timerReset
    (h : ∀ timer ∈ s.timers, timer.mActive = true →
      ∃ d, s.heap timer.ds = some d ∧ d.mTimer = some timer.id)
    (hd : s.heap ds = some d) {timer : PingTimer} (hmem : timer ∈ (s.timerReset d).timers)
    (hactive : timer.mActive = true) : timer ∈ s.timers ∧ timer.ds ≠ ds := by
  unfold timerReset at hmem
  split at hmem
  · obtain ⟨hold, hne⟩ := mem_of_mem_cancelTimer hmem hactive
    refine ⟨hold, ?_⟩
    rintro rfl
    obtain ⟨d', hd', hid⟩ := h timer hold hactive
    rw [hd, Option.some.injEq] at hd'
    exact hne (hd' ▸ hid.symm)
  · rename_i hdead
    refine ⟨hmem, ?_⟩
    rintro rfl
    obtain ⟨d', hd', hid⟩ := h timer hmem hactive
    rw [hd, Option.some.injEq] at hd'
    subst hd'
    exact hdead (hid ▸ timerAlive_of_mem hmem none)

theorem delete_eq (hd : s.heap ds = some d) :
    s.delete ds = { s.timerReset d with heap := Function.update s.heap ds none } := by
  simp only [delete, withSocket, hd, timerReset]
  split <;> rfl

theorem frame_delete (hd : s.heap ds = some d) :
    (s.delete ds).pc = s.pc ∧ (s.delete ds).nextPtr = s.nextPtr ∧
      (s.delete ds).fault = s.fault := by
  rw [delete_eq hd]
  unfold timerReset
  split <;> exact ⟨rfl, rfl, rfl⟩

/-- Deleting an object that only its own timer refers to. -/
theorem Refs.delete (h : s.Refs) (hd : s.heap ds = some d)
    (hslots : ∀ index, s.data.mDataSockets.get index ≠ some (some ds))
    (hentering : .enter ds ∉ s.mCopyAsyncProcs ++ s.mAsyncProcs)
    (hentries : ∀ entry ∈ s.entries, entry.ds ≠ ds) : (s.delete ds).Refs ∧
      (∀ other, other ≠ ds → (s.delete ds).connection other = s.connection other) ∧
      (s.delete ds).connection ds = { s.connection ds with socket := none } := by
  have hheap : ∀ {other e}, other ≠ ds → s.heap other = some e →
      (s.delete ds).heap other = some e := by
    intro other e hne he
    rw [delete_eq hd]
    simpa [Function.update_of_ne hne] using he
  have hothers : ∀ other, other ≠ ds →
      (s.delete ds).connection other = s.connection other := by
    intro other hne
    rw [delete_eq hd]
    unfold timerReset
    split <;> simp only [connection, procsOf, historyOf, cancelTimer, Function.update_of_ne hne]
  have hsame : SameLists s (s.delete ds) := by
    rw [delete_eq hd]
    unfold timerReset
    split <;> exact ⟨rfl, rfl, rfl, rfl, rfl, rfl, h.after_part, fun _ hpc => hpc⟩
  refine ⟨h.of_referenced hsame hothers (h.lt_of_heap hd) ?_ ?_, hothers, ?_⟩
  -- What slots, queued closures and poll entries lead to is another object, and still there.
  · intro owner e howner he
    have hne : owner ≠ ds := by
      rintro rfl
      rcases howner with ⟨index, hget⟩ | hmem | ⟨entry, hentry, heq⟩
      · exact hslots index hget
      · exact hentering hmem
      · exact hentries entry hentry heq
    exact ⟨e, hheap hne he, rfl, rfl⟩
  -- The destructor has cancelled the timer of the object itself.
  · intro timer hmem hactive
    have hreset : timer ∈ (s.timerReset d).timers := by
      rw [delete_eq hd] at hmem
      exact hmem
    obtain ⟨hold, hne⟩ := mem_timerReset h.timers hd hreset hactive
    obtain ⟨d', hd', hid⟩ := h.timers timer hold hactive
    exact ⟨d', hheap hne hd', hid⟩
  · rw [delete_eq hd]
    unfold timerReset
    split <;> simp only [connection, procsOf, historyOf, cancelTimer, Function.update_self]

theorem Inv.sound_disConnectReturn (inv : s.Inv) (hpc : s.pc = .disConnectCallback ds) :
    Sound s ((s.delete ds).goto (.phase .after)) := by
  have hfrom : s.pc.socket? = some ds := by rw [hpc]; rfl
  have hactivity : (s.connection ds).activity = .closing := by
    change s.pc.activity ds = .closing
    rw [activity_self hfrom, hpc]
    rfl
  obtain ⟨d, hd, hentered⟩ := inv.live_of_pc hfrom (by rw [hpc]; simp [IOLoopPc.doing])
  have hentries : s.entries = [] := by
    by_contra hne
    have hpart := inv.refs.entries_part hne
    rw [hpc] at hpart
    cases hpart
  obtain ⟨hrefs, hothers, hself⟩ := inv.refs.delete hd
    (fun index hget => (inv.refs.slots index ds hget).1 hpc)
    (fun hmem => by
      obtain ⟨d', hd', hno⟩ := inv.refs.entering ds hmem
      rw [hd, Option.some.injEq] at hd'
      rw [← hd', hentered] at hno
      cases hno)
    (by simp [hentries])
  obtain ⟨hpc', hnextPtr, hfault⟩ := frame_delete hd
  rw [hpc] at hpc'
  have hmoves : Moves (s.delete ds) ds (.phase .after) :=
    .away (by rw [hpc']; rfl) (by rw [hpc']; rfl)
  have hmoved : ∀ other, other ≠ ds →
      ((s.delete ds).goto (.phase .after)).connection other = (s.delete ds).connection other := by
    intro other hne
    rw [connection_goto, hmoves.others other hne]
    rfl
  have hlocal : Local s ((s.delete ds).goto (.phase .after)) ds := by
    refine ⟨fun other hne => (hmoved other hne).trans (hothers other hne), ?_⟩
    rw [connection_goto, hself]
    exact .single (.deleted hactivity)
  have hlists : SameLists (s.delete ds) ((s.delete ds).goto (.phase .after)) := by
    refine ⟨rfl, rfl, rfl, rfl, rfl, by rw [hpc']; rfl, fun _ => rfl, fun other hclosing => ?_⟩
    cases hclosing
  have hlt : ds < (s.delete ds).nextPtr := hnextPtr ▸ inv.refs.lt_of_heap hd
  exact ⟨hrefs.of_referenced hlists hmoved hlt (fun _ he => ⟨_, he, rfl, rfl⟩) hrefs.timers,
    hlocal.all, fun hfaulty => inv.fault (hfault ▸ hfaulty)⟩

theorem activity_ne_closing (hclosing : s.pc ≠ .disConnectCallback ds) :
    (s.connection ds).activity ≠ .closing := by
  intro heq
  change s.pc.activity ds = .closing at heq
  unfold IOLoopPc.activity at heq
  split at heq
  · rename_i hown
    cases hpc : s.pc <;> rw [hpc] at heq hown <;> cases heq
    cases hown
    exact hclosing hpc
  · cases heq

/-- Setting the fields that only timers and receiving look at, with the list of
timers changed as well. -/
theorem Inv.sound_timers (inv : s.Inv) {d' : DataSocket} (hd : s.heap ds = some d)
    (hcall : d.Call (d', [])) (hsocket : d'.mSocket = d.mSocket)
    (hentered : d.mEventLoop = true) (hclosing : s.pc ≠ .disConnectCallback ds)
    (hheap : s'.heap = Function.update s.heap ds (some d'))
    (hsame : s' = { s with heap := s'.heap, timers := s'.timers, nextTimer := s'.nextTimer })
    (htimers : ∀ timer ∈ s'.timers, timer.mActive = true →
      timer ∈ s.timers ∧ timer.ds ≠ ds ∨ timer.ds = ds ∧ d'.mTimer = some timer.id) :
    Sound s s' := by
  have hconnection : ∀ other, s'.connection other =
      { s.connection other with socket := s'.heap other } := by
    intro other
    rw [hsame]
    rfl
  have hactivity := activity_ne_closing hclosing
  obtain ⟨hloop, hud, -, -⟩ := hcall.frame
  have hlocal : Local s s' ds := by
    refine ⟨?_, ?_⟩
    · intro other hne
      rw [hconnection, hheap, Function.update_of_ne hne]
      rfl
    · rw [hconnection, hheap, Function.update_self, ← call_of_mSocket hsocket]
      exact .single (.called hd hentered hactivity hcall)
  have hlists : SameLists s s' := by
    rw [hsame]
    exact ⟨rfl, rfl, rfl, rfl, rfl, rfl, inv.refs.after_part, fun _ hpc => hpc⟩
  refine ⟨inv.refs.of_referenced hlists hlocal.others (inv.refs.lt_of_heap hd) ?_ ?_, hlocal.all,
    ?_⟩
  · intro other e _ he
    rw [hheap]
    by_cases heq : other = ds
    · subst heq
      rw [hd, Option.some.injEq] at he
      subst he
      exact ⟨d', Function.update_self .., hloop, hud⟩
    · exact ⟨e, by rw [Function.update_of_ne heq, he], rfl, rfl⟩
  · intro timer hmem hactive
    rcases htimers timer hmem hactive with ⟨hold, hne⟩ | ⟨heq, hid⟩
    · obtain ⟨e, he, hid⟩ := inv.refs.timers timer hold hactive
      exact ⟨e, by rw [hheap, Function.update_of_ne hne, he], hid⟩
    · exact ⟨d', by rw [hheap, heq, Function.update_self], hid⟩
  · rw [hsame]
    exact inv.fault

/-- Some timers were taken out or deactivated. -/
theorem Inv.sound_timers_subset (inv : s.Inv) {timers : List PingTimer}
    (hsubset : ∀ timer ∈ timers, timer.mActive = true → timer ∈ s.timers) :
    Sound s { s with timers := timers } :=
  ⟨⟨inv.refs.fresh, inv.refs.entries_part, inv.refs.async_part, inv.refs.after_part,
    inv.refs.slots,
    fun timer hmem hactive => inv.refs.timers timer (hsubset timer hmem hactive) hactive,
    inv.refs.entering, inv.refs.entering_nodup, inv.refs.entries⟩, fun _ => .refl, inv.fault⟩

/-- `startPingCheckTimer`, after some timers were deactivated and the socket was
changed to `d'`. -/
theorem Inv.sound_startPingCheckTimer (inv : s.Inv) {timers : List PingTimer}
    (hd : s.heap ds = some d) (hentered : d.mEventLoop = true)
    (hclosing : s.pc ≠ .disConnectCallback ds) (recvData : Bool) (checkTime : ℕ)
    (timer : Option ℕ) (held : Option ℕ)
    (htimers : ∀ t ∈ timers, t.mActive = true → t ∈ s.timers ∧ (t.ds = ds → timer = some t.id)) :
    Sound s ({ s with timers := timers }.startPingCheckTimer held ds
      { d with mRecvData := recvData, mCheckTime := checkTime, mTimer := timer }) := by
  unfold startPingCheckTimer
  split
  · rename_i hstart
    refine inv.sound_timers hd (.quiet d.mRecvBuffer recvData checkTime (some s.nextTimer)) rfl
      hentered hclosing rfl rfl ?_
    intro t hmem hactive
    rcases List.mem_append.mp hmem with hold | hnew
    · left
      obtain ⟨hmem', hown⟩ := htimers t hold hactive
      refine ⟨hmem', ?_⟩
      intro heq
      have halive := timerAlive_of_mem (s := { s with timers := timers }) hold held
      rw [← hown heq] at halive
      simp [halive] at hstart
    · right
      rw [List.mem_singleton] at hnew
      subst hnew
      exact ⟨rfl, rfl⟩
  · refine inv.sound_timers hd (.quiet d.mRecvBuffer recvData checkTime timer) rfl
      hentered hclosing rfl rfl ?_
    intro t hmem hactive
    obtain ⟨hmem', hown⟩ := htimers t hmem hactive
    by_cases heq : t.ds = ds
    · exact .inr ⟨heq, hown heq⟩
    · exact .inl ⟨hmem', heq⟩

theorem Inv.sound_setHeartBeat (inv : s.Inv) (hd : s.heap ds = some d)
    (hentered : d.mEventLoop = true) (hclosing : s.pc ≠ .disConnectCallback ds)
    (checkTime : ℕ) : Sound s (s.setHeartBeat ds checkTime) := by
  have hreset : s.timerReset d = { s with timers := (s.timerReset d).timers } := by
    unfold timerReset
    split <;> rfl
  have htimers : ∀ (timer : Option ℕ), ∀ t ∈ (s.timerReset d).timers, t.mActive = true →
      t ∈ s.timers ∧ (t.ds = ds → timer = some t.id) := by
    intro timer t hmem hactive
    obtain ⟨hold, hne⟩ := mem_timerReset inv.refs.timers hd hmem hactive
    exact ⟨hold, fun heq => absurd heq hne⟩
  simp only [setHeartBeat, withSocket, hd]
  change Sound s ((s.timerReset d).startPingCheckTimer none ds _)
  rw [hreset]
  split
  · exact inv.sound_startPingCheckTimer hd hentered hclosing d.mRecvData checkTime none none
      (htimers none)
  · exact inv.sound_startPingCheckTimer hd hentered hclosing d.mRecvData checkTime d.mTimer none
      (htimers d.mTimer)

/-- The owner of an active timer has entered. -/
theorem Inv.entered_of_timer (inv : s.Inv) (hd : s.heap ds = some d) {id : ℕ}
    (htimer : d.mTimer = some id) : d.mEventLoop = true := by
  by_contra hno
  have hnew := (((inv.wf ds).posted d hd).unentered (Bool.not_eq_true _ ▸ hno)).1
  rw [hnew.timer] at htimer
  cases htimer

theorem Inv.sound_fireTimer (inv : s.Inv) {id : ℕ} (hpc : s.pc = .phase .timers)
    (h : s.fireTimer id = some s') : Sound s s' := by
  obtain ⟨timer, hfind, rfl⟩ := Option.map_eq_some_iff.mp h
  have hmem : timer ∈ s.timers := List.mem_of_find?_eq_some hfind
  have hsubset : ∀ t ∈ s.timers.erase timer, t.mActive = true → t ∈ s.timers :=
    fun t ht _ => List.mem_of_mem_erase ht
  split
  · rename_i hactive
    obtain ⟨d, hd, htimer⟩ := inv.refs.timers timer hmem hactive
    have hentered := inv.entered_of_timer hd htimer
    have hclosing : s.pc ≠ .disConnectCallback timer.ds := by simp [hpc]
    have hd' : ({ s with timers := s.timers.erase timer } : IOLoop).heap timer.ds = some d := hd
    simp only [pingCheck, withSocket, hd]
    split
    · refine inv.sound_startPingCheckTimer hd hentered hclosing false d.mCheckTime d.mTimer
        (some id) ?_
      intro t ht hactive'
      refine ⟨hsubset t ht hactive', ?_⟩
      intro heq
      obtain ⟨e, he, hid⟩ := inv.refs.timers t (hsubset t ht hactive') hactive'
      rw [heq, hd, Option.some.injEq] at he
      exact he ▸ hid
    · have hpop := inv.sound_timers_subset hsubset
      have haway : s.pc.activity timer.ds ≠ .closing := by simp [hpc]
      exact hpop.trans ((inv.sound hpop).sound_store hd' d.sameTags_procCloseInLoop
        (.single (.called hd' hentered haway d.call_procCloseInLoop)))
  · exact inv.sound_timers_subset hsubset

/-! ## Operations on a session id -/

theorem Inv.sound_applyOp (inv : s.Inv) (hd : s.heap ds = some d)
    (hentered : d.mEventLoop = true) (hclosing : s.pc ≠ .disConnectCallback ds) (caller : Caller)
    (op : SessionOp) : Sound s (s.applyOp caller ds op) := by
  have hactivity := activity_ne_closing hclosing
  cases op with
  | send packet callback =>
      simp only [applyOp, callSocket, withSocket, hd]
      have htags : SameTags d (d.sendInLoop packet callback).1 := by
        rw [SameTags, DataSocket.sendInLoop, DataSocket.runAfterFlush_fst]
        exact ⟨rfl, rfl, rfl⟩
      have hstep := Connection.Step.sent caller packet callback hd hentered hactivity
      refine inv.sound_of_local ⟨?_, .single ?_⟩
        (.update rfl hd htags.1 htags.2.1 htags.2.2) ?_ (inv.refs.lt_of_heap hd) rfl
      · intro other hne
        rw [connection_store_of_ne hne]
        simp only [connection, procsOf, historyOf, Function.update_of_ne hne]
      · rw [connection_store_self]
        simpa only [connection, procsOf, historyOf, Function.update_self, Connection.call]
          using hstep
      · exact ⟨rfl, rfl, rfl, rfl, rfl, rfl, rfl, inv.refs.after_part, fun _ hpc => hpc⟩
  | postShutdown =>
      simp only [applyOp, callSocket, withSocket, hd]
      refine inv.sound_store hd ?_ (.single (.called hd hentered hactivity .postShutdown))
      unfold DataSocket.postShutdown
      split <;> exact ⟨rfl, rfl, rfl⟩
  | postDisConnect =>
      simp only [applyOp, callSocket, withSocket, hd]
      exact inv.sound_store hd d.sameTags_procCloseInLoop
        (.single (.called hd hentered hactivity d.call_procCloseInLoop))
  | setHeartBeat checkTime => exact inv.sound_setHeartBeat hd hentered hclosing checkTime

/-- The log of what was looked up is not part of a connection. -/
theorem Inv.sound_handled (inv : s.Inv) (handled : List (Caller × SessionId × List UInt8)) :
    Sound s { s with handled := handled } :=
  ⟨⟨inv.refs.fresh, inv.refs.entries_part, inv.refs.async_part, inv.refs.after_part,
    inv.refs.slots, inv.refs.timers, inv.refs.entering, inv.refs.entering_nodup,
    inv.refs.entries⟩, fun _ => .refl, inv.fault⟩

theorem Inv.sound_runOp (inv : s.Inv) (caller : Caller) (sid : SessionId) (op : SessionOp) :
    Sound s (s.runOp caller sid op) := by
  have hhandled := inv.sound_handled (logSend s.handled caller sid op)
  have inv' := inv.sound hhandled
  unfold runOp
  dsimp only
  split
  · rename_i ds hget
    obtain ⟨hclosing, d, sid', hd, hud, -⟩ := inv.refs.slots _ ds hget
    simp only [withSocket, hd]
    split
    · rename_i hsid
      have hentered : d.mEventLoop = true := by
        by_contra hno
        have hnew := (((inv.wf ds).posted d hd).unentered (Bool.not_eq_true _ ▸ hno)).1
        rw [hnew.ud] at hud
        cases hud
      have hlog := inv'.sound_log hd (.applied hd hsid (activity_ne_closing hclosing))
      exact hhandled.trans (hlog.trans ((inv'.sound hlog).sound_applyOp hd hentered hclosing
        caller op))
    · exact hhandled
  · exact hhandled

end IOLoop

end Brynet
