import Brynet.Net.Simulation

/-!
# What a step of the loop can be

`IOLoop.Step` lists the steps of the loop with everything the step function has
checked when it takes them.  A step that starts where the references are good is
one of them (`Inv.step_of_next`), so the invariants of the loop are proved case by
case over this list and the step function is taken apart once.
-/

namespace Brynet

open MachineInt Memory Transition

namespace IOLoop

variable {s s' : IOLoop} {malloc : Allocator} {loopIndex : ℕ} {action : IOLoopAction}

/-- The steps of a loop whose references are good. -/
inductive Step (malloc : Allocator) (loopIndex : ℕ) (s : IOLoop) : IOLoopAction → IOLoop → Prop
  | threadOp (t : Thread) (sid : SessionId) (op : SessionOp) :
      Step malloc loopIndex s (.threadOp t sid op) { s with
        mAsyncProcs := s.mAsyncProcs ++ [.session (some t) sid op]
        sent := logSend s.sent (some t) sid op }
  | threadAdd {socket : Sock} {maxRecvBufferSize : ℕ} {ds : Ptr} {mid : IOLoop} :
      s.newSocket malloc socket maxRecvBufferSize = some (ds, mid) →
      Step malloc loopIndex s (.threadAdd socket maxRecvBufferSize)
        { mid with mAsyncProcs := mid.mAsyncProcs ++ [.enter ds] }
  | threadProc :
      Step malloc loopIndex s .threadProc { s with mAsyncProcs := s.mAsyncProcs ++ [.user] }
  | poll {entries : List EpollEntry} :
      s.pc = .phase .poll → entries.all s.reports = true →
      (entries.map EpollEntry.ds).Nodup →
      Step malloc loopIndex s (.poll entries) { s.goto (.phase .events) with entries := entries }
  | entry {entry : EpollEntry} {rest : List EpollEntry} :
      s.pc = .phase .events → s.entries = entry :: rest →
      Step malloc loopIndex s .entry
        { s.goto (.calls entry.ds entry.calls) with entries := rest }
  | entriesDone :
      s.pc = .phase .events → s.entries = [] →
      Step malloc loopIndex s .entriesDone { s.goto (.phase .async) with
        mCopyAsyncProcs := s.mAsyncProcs, mAsyncProcs := s.mCopyAsyncProcs }
  | call {ds : Ptr} {rest : List ChannelCall} :
      s.pc = .calls ds rest → Step malloc loopIndex s .call (s.channelCall ds rest)
  | recvLeave {ds : Ptr} {rest : List ChannelCall} {d : DataSocket} :
      s.pc = .recv ds rest → s.heap ds = some d → d.tryRecvLen = none →
      Step malloc loopIndex s .recvLeave (s.goto (.calls ds rest))
  | recvResult {ds : Ptr} {rest : List ChannelCall} {d : DataSocket} {tryRecvLen : ℕ}
      {r : RecvResult} :
      s.pc = .recv ds rest → s.heap ds = some d → d.tryRecvLen = some tryRecvLen →
      r.valid tryRecvLen = true →
      Step malloc loopIndex s (.recvResult r) (s.afterRecv malloc ds d rest tryRecvLen r)
  | dataReturn {ds : Ptr} {retlen tryRecvLen : ℕ} {rest : List ChannelCall} {d : DataSocket}
      (proclen : ℕ) :
      s.pc = .dataCallback ds retlen tryRecvLen rest → s.heap ds = some d →
      Step malloc loopIndex s (.dataReturn proclen)
        ((s.store ds d ((d.recvReturned proclen retlen tryRecvLen).1, [])).goto
          (if (d.recvReturned proclen retlen tryRecvLen).2 then .recv ds rest else .calls ds rest))
  | runAsync {linked : Bool} {proc : AsyncProc} {procs : List AsyncProc} {s' : IOLoop} :
      s.pc = .phase .async → s.mCopyAsyncProcs = proc :: procs →
      { s with mCopyAsyncProcs := procs }.runAsyncProc loopIndex linked proc = some s' →
      Step malloc loopIndex s (.runAsync linked) s'
  | asyncDone :
      s.pc = .phase .async → s.mCopyAsyncProcs = [] →
      Step malloc loopIndex s .asyncDone { s.goto (.phase .after) with
        mCopyAfterLoopProcs := s.mAfterLoopProcs, mAfterLoopProcs := s.mCopyAfterLoopProcs }
  | runAfter {proc : LoopProc} {procs : List LoopProc} :
      s.pc = .phase .after → s.mCopyAfterLoopProcs = proc :: procs →
      Step malloc loopIndex s .runAfter
        ({ s with mCopyAfterLoopProcs := procs }.runAfterProc proc)
  | afterDone :
      s.pc = .phase .after → s.mCopyAfterLoopProcs = [] →
      Step malloc loopIndex s .afterDone (s.goto (.phase .timers))
  | flushLeave {ds : Ptr} {d : DataSocket} :
      s.pc = .quickFlush ds → s.heap ds = some d → d.mSendList = [] →
      Step malloc loopIndex s .flushLeave (s.goto (.phase .after))
  | writev {ds : Ptr} {d : DataSocket} {r : WritevResult} :
      s.pc = .quickFlush ds → s.heap ds = some d → d.mSendList ≠ [] →
      d.mSocket.isSome = true → r.valid d.offered.length = true →
      Step malloc loopIndex s (.writev r) (s.afterWritev ds d r)
  | writevNull {ds : Ptr} {d : DataSocket} (r : WritevResult) :
      s.pc = .quickFlush ds → s.heap ds = some d → d.mSocket = none →
      Step malloc loopIndex s (.writev r) { s with fault := some .nullSocket }
  | erase {ds : Ptr} {tmpLen : ℕ} {full : Bool} :
      s.pc = .erase ds tmpLen full → Step malloc loopIndex s .erase (s.eraseTurn ds tmpLen full)
  | timer {id : ℕ} {s' : IOLoop} :
      s.pc = .phase .timers → s.fireTimer id = some s' → Step malloc loopIndex s (.timer id) s'
  | userTimer :
      s.pc = .phase .timers → Step malloc loopIndex s .userTimer (s.goto (.userCode .timers))
  | timersDone :
      s.pc = .phase .timers → Step malloc loopIndex s .timersDone (s.goto (.userCode .poll))
  | userOp (sid : SessionId) (op : SessionOp) :
      s.inUserCode = true →
      Step malloc loopIndex s (.userOp sid op)
        ({ s with sent := logSend s.sent none sid op }.runOp none sid op)
  | userAdd {socket : Sock} {maxRecvBufferSize : ℕ} {linked : Bool} {ds : Ptr} {mid s' : IOLoop} :
      s.inUserCode = true → s.newSocket malloc socket maxRecvBufferSize = some (ds, mid) →
      mid.enter loopIndex ds linked mid.pc = some s' →
      Step malloc loopIndex s (.userAdd socket maxRecvBufferSize linked) s'
  | userAfter :
      s.inUserCode = true →
      Step malloc loopIndex s .userAfter
        { s with mAfterLoopProcs := s.mAfterLoopProcs ++ [.user] }
  | completeStale {ds : Ptr} {tmpLen : ℕ} {full : Bool} {size : ℕ} :
      s.pc = .completeCallback ds tmpLen full size → s.listGrown ds size = true →
      Step malloc loopIndex s .userReturn { s with fault := some .staleIterator }
  | completeReturn {ds : Ptr} {tmpLen : ℕ} {full : Bool} {size : ℕ} :
      s.pc = .completeCallback ds tmpLen full size → s.listGrown ds size = false →
      Step malloc loopIndex s .userReturn
        ((s.callSocket ds fun d => (d.eraseFront, [])).goto (.erase ds tmpLen full))
  | disConnectReturn {ds : Ptr} :
      s.pc = .disConnectCallback ds →
      Step malloc loopIndex s .userReturn ((s.delete ds).goto (.phase .after))
  | codeReturn {back : LoopPhase} :
      s.pc = .userCode back → Step malloc loopIndex s .userReturn (s.goto (.phase back))

theorem step_of_threadNext (h : s.threadNext malloc action = some s') :
    Step malloc loopIndex s action s' := by
  cases action with
  | threadOp t sid op =>
      cases h
      exact .threadOp t sid op
  | threadAdd socket maxRecvBufferSize =>
      obtain ⟨⟨ds, mid⟩, hnew, rfl⟩ := Option.map_eq_some_iff.mp h
      exact .threadAdd hnew
  | threadProc =>
      cases h
      exact .threadProc
  | _ => cases h

theorem step_of_userReturn (h : s.userReturn = some s') :
    Step malloc loopIndex s .userReturn s' := by
  unfold userReturn at h
  split at h
  next hpc =>
    split at h
    -- The send list has grown during the callback, so its iterator is stale.
    next hgrown =>
      cases h
      exact .completeStale hpc hgrown
    next hgrown =>
      cases h
      exact .completeReturn hpc (Bool.eq_false_of_not_eq_true hgrown)
  next hpc =>
    cases h
    exact .disConnectReturn hpc
  next hpc =>
    cases h
    exact .codeReturn hpc
  next => cases h

theorem step_of_userNext (huser : s.inUserCode = true)
    (h : s.userNext malloc loopIndex action = some s') : Step malloc loopIndex s action s' := by
  cases action with
  | userOp sid op =>
      cases h
      exact .userOp sid op huser
  | userAdd socket maxRecvBufferSize linked =>
      obtain ⟨⟨ds, mid⟩, hnew, henter⟩ := Option.bind_eq_some_iff.mp h
      exact .userAdd huser hnew henter
  | userAfter =>
      cases h
      exact .userAfter huser
  | userReturn => exact step_of_userReturn h
  | _ => cases h

theorem Inv.step_of_loopNext (inv : s.Inv) (h : s.loopNext malloc loopIndex action = some s') :
    Step malloc loopIndex s action s' := by
  cases action with
  -- The guard of each action is the premise of its constructor.
  | poll entries =>
      simp only [loopNext, Option.ite_none_right_eq_some, Option.some.injEq] at h
      obtain ⟨⟨hpc, hreports, hnodup⟩, rfl⟩ := h
      exact .poll hpc hreports hnodup
  | entry =>
      simp only [loopNext] at h
      split at h
      next hpc hentries =>
        cases h
        exact .entry hpc hentries
      next => cases h
  | entriesDone =>
      simp only [loopNext] at h
      split at h
      next hpc hentries =>
        cases h
        exact .entriesDone hpc hentries
      next => cases h
  | call =>
      simp only [loopNext] at h
      split at h
      next hpc =>
        cases h
        exact .call hpc
      next => cases h
  | recvLeave =>
      simp only [loopNext] at h
      split at h
      next ds rest hpc =>
        -- The socket of the event is alive, so the pointer can be followed.
        obtain ⟨d, hd, -⟩ := inv.live_of_pc (by rw [hpc]; rfl) (by rw [hpc]; simp [IOLoopPc.doing])
        simp only [hd, Option.ite_none_right_eq_some, Option.some.injEq,
          Option.isNone_iff_eq_none] at h
        obtain ⟨htry, rfl⟩ := h
        exact .recvLeave hpc hd htry
      next => cases h
  | recvResult r =>
      simp only [loopNext] at h
      split at h
      next ds rest hpc =>
        obtain ⟨d, hd, -⟩ := inv.live_of_pc (by rw [hpc]; rfl) (by rw [hpc]; simp [IOLoopPc.doing])
        simp only [hd] at h
        split at h
        next tryRecvLen htry =>
          simp only [Option.ite_none_right_eq_some, Option.some.injEq] at h
          obtain ⟨hvalid, rfl⟩ := h
          exact .recvResult hpc hd htry hvalid
        next => cases h
      next => cases h
  | dataReturn proclen =>
      simp only [loopNext] at h
      split at h
      next ds retlen tryRecvLen rest hpc =>
        obtain ⟨d, hd, -⟩ := inv.live_of_pc (by rw [hpc]; rfl) (by rw [hpc]; simp [IOLoopPc.doing])
        simp only [withSocket, hd, Option.some.injEq] at h
        subst h
        exact .dataReturn proclen hpc hd
      next => cases h
  | runAsync linked =>
      simp only [loopNext] at h
      split at h
      next hpc hcopy => exact .runAsync hpc hcopy h
      next => cases h
  | asyncDone =>
      simp only [loopNext] at h
      split at h
      next hpc hcopy =>
        cases h
        exact .asyncDone hpc hcopy
      next => cases h
  | runAfter =>
      simp only [loopNext] at h
      split at h
      next hpc hcopy =>
        cases h
        exact .runAfter hpc hcopy
      next => cases h
  | afterDone =>
      simp only [loopNext] at h
      split at h
      next hpc hcopy =>
        cases h
        exact .afterDone hpc hcopy
      next => cases h
  | flushLeave =>
      simp only [loopNext] at h
      split at h
      next ds hpc =>
        obtain ⟨d, hd, -⟩ := inv.live_of_pc (by rw [hpc]; rfl) (by rw [hpc]; simp [IOLoopPc.doing])
        simp only [hd, Option.ite_none_right_eq_some, Option.some.injEq, List.isEmpty_iff] at h
        obtain ⟨hempty, rfl⟩ := h
        exact .flushLeave hpc hd hempty
      next => cases h
  -- `writev` is called for a list that is not empty, or the socket is null already.
  | writev r =>
      simp only [loopNext] at h
      split at h
      next ds hpc =>
        obtain ⟨d, hd, -⟩ := inv.live_of_pc (by rw [hpc]; rfl) (by rw [hpc]; simp [IOLoopPc.doing])
        simp only [hd] at h
        split at h
        next => cases h
        next hlist =>
          split at h
          next hnull =>
            cases h
            exact .writevNull r hpc hd (Option.isNone_iff_eq_none.mp hnull)
          next hopen =>
            simp only [Option.ite_none_right_eq_some, Option.some.injEq] at h
            obtain ⟨hvalid, rfl⟩ := h
            refine .writev hpc hd ?_ ?_ hvalid
            · simpa using hlist
            · simpa [Option.isSome_iff_ne_none] using hopen
      next => cases h
  | erase =>
      simp only [loopNext] at h
      split at h
      next hpc =>
        cases h
        exact .erase hpc
      next => cases h
  | timer id =>
      simp only [loopNext, Option.ite_none_right_eq_some] at h
      exact .timer h.1 h.2
  | userTimer =>
      simp only [loopNext, Option.ite_none_right_eq_some, Option.some.injEq] at h
      obtain ⟨hpc, rfl⟩ := h
      exact .userTimer hpc
  | timersDone =>
      simp only [loopNext, Option.ite_none_right_eq_some, Option.some.injEq] at h
      obtain ⟨hpc, rfl⟩ := h
      exact .timersDone hpc
  | _ => cases h

/-- **Inversion.**  A step of the loop is one of the list. -/
theorem Inv.step_of_next (inv : s.Inv) (h : s.next malloc loopIndex action = some s') :
    Step malloc loopIndex s action s' := by
  unfold next at h
  split at h
  · cases h
  · cases action with
    | threadOp | threadAdd | threadProc => exact step_of_threadNext h
    | userOp | userAdd | userAfter | userReturn =>
        obtain ⟨huser, h⟩ := Option.ite_none_right_eq_some.mp h
        exact step_of_userNext huser h
    | _ => exact inv.step_of_loopNext h

end IOLoop

end Brynet
