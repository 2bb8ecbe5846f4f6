import Brynet.Net.Sessions
import Brynet.Net.HalfCloseSteps

/-!
# Half-closes in the runs of the loop

`HalfClose` is the loop with a record of its half-closes: what had been sent at
each call of `postShutdown` whose closure is still queued, and what the kernel had
accepted at each `shutdown(SHUT_WR)`.  All connections stay in order in a run in
which the shutdown closure finds its socket writable or with nothing to send, and
`canSend` is not called for a socket whose next closure is the shutdown closure.

`InOrder.next` goes through the actions of the loop.  A step is calm (it leaves all
that `InOrder` looks at, or only shortens it), or it is one of the few that are not: a
call of `postShutdown` (`InOrder.session`), a closure that is run (`InOrder.runAfter`),
an event (`InOrder.poll`, `InOrder.call`), a part of `quickFlush`, and a new object.
The result follows from the record: `shutdown(SHUT_WR)` is issued by the shutdown
closure only, and that is where `InOrder.issued` compares.
-/

namespace Brynet

open MachineInt Memory Transition

namespace IOLoop

variable {s s' : IOLoop} {ds : Ptr} {d : DataSocket} {malloc : Allocator} {loopIndex : ℕ}
  {asked asked' : Ptr → List (List UInt8)}

/-! ## The record of the half-closes -/

/-- The open socket on which a step calls `postShutdown`. -/
def asks (s : IOLoop) : IOLoopAction → Option Ptr
  | .userOp sid .postShutdown => s.openSocket sid
  | .runAsync _ =>
      match s.mCopyAsyncProcs with
      | .session _ sid .postShutdown :: _ => s.openSocket sid
      | _ => none
  | _ => none

/-- The socket whose shutdown closure a step runs. -/
def shuts (s : IOLoop) : IOLoopAction → Option Ptr
  | .runAfter =>
      match s.mCopyAfterLoopProcs with
      | .socket ds .shutdown :: _ => some ds
      | _ => none
  | _ => none

/-- What is recorded for the queued shutdown closures after a step. -/
def askedNext (s : IOLoop) (action : IOLoopAction) (asked : Ptr → List (List UInt8)) (ds : Ptr) :
    List (List UInt8) :=
  (if s.shuts action = some ds then (asked ds).tail else asked ds) ++
    if s.asks action = some ds then [(s.delivered ds).flatMap Prod.snd] else []

/-- Whether a shutdown closure finds its socket drained, and `canSend` is not called
for an open socket whose next closure is the shutdown closure. -/
def shutsDrained (s : IOLoop) : IOLoopAction → Bool
  | .runAfter =>
      match s.mCopyAfterLoopProcs with
      | .socket ds .shutdown :: _ => (s.heap ds).all drained
      | _ => true
  | .call =>
      match s.pc with
      | .calls ds (.canSend :: _) =>
          (s.heap ds).all fun d => d.mSocket.isNone || (s.procsOf ds).head? != some .shutdown
      | _ => true
  | _ => true

theorem askedNext_of_none {action : IOLoopAction} (hshuts : s.shuts action = none)
    (hasks : s.asks action = none) : s.askedNext action asked = asked := by
  funext ds
  simp [askedNext, hshuts, hasks]

theorem askedNext_of_shuts {action : IOLoopAction} (hshuts : s.shuts action = some ds)
    (hasks : s.asks action = none) (asked : Ptr → List (List UInt8)) :
    s.askedNext action asked ds = (asked ds).tail ∧
      ∀ other, other ≠ ds → s.askedNext action asked other = asked other := by
  refine ⟨?_, fun other hne => ?_⟩
  · simp [askedNext, hshuts, hasks]
  · simp [askedNext, hshuts, hasks, hne.symm]

/-! ## All steps -/

/-- What is known about the sending side of every reachable state. -/
structure Outputs (s : IOLoop) : Prop where
  inv : s.Inv
  flushes : ∀ ds, (s.connection ds).Flushes
  streams : ∀ ds, (s.connection ds).Streams

theorem outputs_of_reachable (h : (system malloc loopIndex).Reachable s) : s.Outputs :=
  ⟨inv_of_reachable h, flushes_of_reachable h, streams_of_reachable h⟩

/-- An operation that user code or a closure makes on a session id. -/
theorem InOrder.session (h : s.InOrder asked) (outputs : s.Outputs) (caller : Caller)
    (sid : SessionId) (op : SessionOp)
    (hasked : ∀ ds, asked' ds = asked ds ++
      if op = .postShutdown ∧ s.openSocket sid = some ds then [(s.connection ds).queued] else []) :
    (s.runOp caller sid op).InOrder asked' := by
  by_cases hop : op = .postShutdown
  · subst hop
    simp only [true_and] at hasked
    cases hopened : s.openSocket sid with
    | none =>
        have hsame : asked' = asked := by
          funext ds
          simp [hasked, hopened]
        exact hsame ▸ h.calm (calm_runOp_missed s caller hopened)
    | some ds =>
        refine h.runOp outputs.inv outputs.flushes outputs.streams caller hopened ?_ ?_
        · rw [hasked, if_pos hopened]
        · intro other hne
          rw [hasked, hopened, if_neg (by simpa using hne.symm), List.append_nil]
  · have hsame : asked' = asked := by
      funext ds
      simp [hasked, hop]
    exact hsame ▸ h.calm (calm_runOp s caller sid hop)

theorem askedNext_userOp (s : IOLoop) (sid : SessionId) (op : SessionOp)
    (asked : Ptr → List (List UInt8)) (ds : Ptr) :
    s.askedNext (.userOp sid op) asked ds = asked ds ++
      if op = .postShutdown ∧ s.openSocket sid = some ds then [(s.connection ds).queued] else [] := by
  cases op with
  | postShutdown =>
      by_cases hopened : s.openSocket sid = some ds
      · simp [askedNext, shuts, asks, hopened, connection, Connection.queued]
      · simp [askedNext, shuts, asks, hopened]
  | send | postDisConnect | setHeartBeat => simp [askedNext, shuts, asks]

theorem askedNext_session {caller : Caller} {sid : SessionId} {op : SessionOp}
    {procs : List AsyncProc} (hcopy : s.mCopyAsyncProcs = .session caller sid op :: procs)
    (linked : Bool) (asked : Ptr → List (List UInt8)) (ds : Ptr) :
    s.askedNext (.runAsync linked) asked ds = asked ds ++
      if op = .postShutdown ∧ s.openSocket sid = some ds then [(s.connection ds).queued] else [] := by
  cases op with
  | postShutdown => simp [askedNext, shuts, asks, hcopy, connection, Connection.queued]
  | send | postDisConnect | setHeartBeat => simp [askedNext, shuts, asks, hcopy]

theorem InOrder.completeReturn (h : s.InOrder asked) {tmpLen : ℕ} {full : Bool} {size : ℕ}
    (hpc : s.pc = .completeCallback ds tmpLen full size) :
    ((s.callSocket ds fun d => (d.eraseFront, [])).goto (.erase ds tmpLen full)).InOrder asked := by
  refine h.calm ((calm_callSocket DataSocket.calm_eraseFront).trans (calm_goto_flushing ?_ rfl ?_))
  all_goals rw [pc_callSocket, hpc]
  all_goals rfl

theorem InOrder.disConnectReturn (h : s.InOrder asked) (hpc : s.pc = .disConnectCallback ds) :
    ((s.delete ds).goto (.phase .after)).InOrder asked := by
  have hsame : (s.delete ds).pc = s.pc := by
    unfold IOLoop.delete withSocket
    split
    · dsimp only
      split <;> rfl
    · rfl
  refine h.calm ((calm_delete s ds).trans (calm_goto_idle ?_ rfl fun _ => List.nil_sublist _))
  rw [hsame, hpc]
  rfl

theorem InOrder.userOp (h : s.InOrder asked) (outputs : s.Outputs) (sid : SessionId)
    (op : SessionOp) :
    (IOLoop.runOp { s with sent := logSend s.sent none sid op } none sid op).InOrder
      (s.askedNext (.userOp sid op) asked) := by
  have hsent := outputs.inv.sound_sent (logSend s.sent none sid op)
  have h' : InOrder { s with sent := logSend s.sent none sid op } asked :=
    h.calm (calm_logs s _ s.handled)
  have outputs' : Outputs { s with sent := logSend s.sent none sid op } :=
    ⟨outputs.inv.sound hsent, outputs.flushes, outputs.streams⟩
  exact h'.session outputs' none sid op (askedNext_userOp s sid op asked)

theorem InOrder.runAfter (h : s.InOrder asked) (inv : s.Inv) {proc : LoopProc}
    {procs : List LoopProc} (hpc : s.pc = .phase .after)
    (hcopy : s.mCopyAfterLoopProcs = proc :: procs) (hok : s.shutsDrained .runAfter = true) :
    ((s.popped procs).runAfterProc proc).InOrder (s.askedNext .runAfter asked) := by
  cases proc with
  | socket ds proc =>
      cases proc with
      | flush =>
          rw [askedNext_of_none (by simp [shuts, hcopy]) rfl]
          exact h.flush inv hpc hcopy
      | shutdown =>
          simp only [shutsDrained, hcopy] at hok
          have hshuts : s.shuts .runAfter = some ds := by simp [shuts, hcopy]
          obtain ⟨hself, hothers⟩ := askedNext_of_shuts hshuts rfl asked
          exact h.shutdown inv hpc hcopy hok hself hothers
      | disConnect =>
          rw [askedNext_of_none (by simp [shuts, hcopy]) rfl]
          exact h.disConnect inv hpc hcopy
  | user =>
      rw [askedNext_of_none (by simp [shuts, hcopy]) rfl]
      exact h.calm (calm_user hpc hcopy)

theorem InOrder.runAsync (h : s.InOrder asked) (outputs : s.Outputs) {proc : AsyncProc}
    {procs : List AsyncProc} {linked : Bool} (hpc : s.pc = .phase .async)
    (hcopy : s.mCopyAsyncProcs = proc :: procs)
    (hnext : { s with mCopyAsyncProcs := procs }.runAsyncProc loopIndex linked proc = some s') :
    s'.InOrder (s.askedNext (.runAsync linked) asked) := by
  have hpop := (outputs.inv.sound_popAsync hcopy).1
  have h' : InOrder { s with mCopyAsyncProcs := procs } asked :=
    h.calm (.of_same (fun _ => rfl) fun _ => rfl)
  have outputs' : Outputs { s with mCopyAsyncProcs := procs } :=
    ⟨outputs.inv.sound hpop, outputs.flushes, outputs.streams⟩
  cases proc with
  | session caller sid op =>
      cases hnext
      exact h'.session outputs' caller sid op (askedNext_session hcopy linked asked)
  | enter ds =>
      rw [askedNext_of_none rfl (by simp [asks, hcopy])]
      refine h'.calm (calm_enter (fun other => ?_) (fun other => ?_) hnext)
      · simp [hpc]
      · simp [hpc, IOLoopPc.callsOf]
  | user =>
      rw [askedNext_of_none rfl (by simp [asks, hcopy])]
      cases hnext
      refine h'.calm (calm_goto_idle ?_ rfl fun _ => List.nil_sublist _)
      rw [hpc]
      rfl

theorem InOrder.call (h : s.InOrder asked) (inv : s.Inv) {rest : List ChannelCall}
    (hpc : s.pc = .calls ds rest) (hok : s.shutsDrained .call = true) :
    (s.channelCall ds rest).InOrder asked := by
  have hidle : s.pc.doing.isFlushing = false := by rw [hpc]; rfl
  have hfrom (other : Ptr) : s.pc.callsOf other = if ds = other then rest else [] := by
    rw [hpc]
    rfl
  cases rest with
  | nil => exact h.calm (calm_goto_idle hidle rfl fun _ => List.nil_sublist _)
  | cons call rest =>
      have hrest : rest.Sublist (call :: rest) := List.sublist_cons_self ..
      cases call with
      | canRecv => exact h.calm (calm_handling hidle rfl hfrom (fun _ => rfl) hrest)
      | canSend =>
          have hsocket : s.pc.socket? = some ds := by rw [hpc]; rfl
          obtain ⟨d, hd, -⟩ := inv.live_of_pc hsocket (by simp [hpc, IOLoopPc.doing])
          refine h.canSend inv hpc hd ?_
          intro hopen
          simp only [shutsDrained, hpc, hd, Option.all_some, Option.isNone_eq_false_iff.mpr hopen,
            Bool.false_or, bne_iff_ne] at hok
          exact hok
      | onClose =>
          have hsame := pc_callSocket s ds DataSocket.onClose
          exact h.calm ((calm_callSocket DataSocket.calm_onClose).trans
            (calm_handling (hsame.symm ▸ hidle) rfl (hsame.symm ▸ hfrom) (fun _ => rfl) hrest))

theorem InOrder.dataReturn (h : s.InOrder asked) {retlen tryRecvLen : ℕ}
    {rest : List ChannelCall} (proclen : ℕ)
    (hpc : s.pc = .dataCallback ds retlen tryRecvLen rest) (hd : s.heap ds = some d) :
    ((s.store ds d ((d.recvReturned proclen retlen tryRecvLen).1, [])).goto
      (if (d.recvReturned proclen retlen tryRecvLen).2 then .recv ds rest
        else .calls ds rest)).InOrder asked := by
  have hquiet := d.quiet_recvReturned proclen retlen tryRecvLen
  refine h.calm ((calm_store hd hquiet.calm).trans (calm_goto_idle ?_ ?_ fun other => ?_))
  · change s.pc.doing.isFlushing = false
    rw [hpc]
    rfl
  · split <;> rfl
  · change List.Sublist _ (s.pc.callsOf other)
    rw [hpc]
    split <;> exact List.Sublist.refl _

theorem InOrder.next (h : s.InOrder asked) (outputs : s.Outputs) {action : IOLoopAction}
    (hok : s.shutsDrained action = true) (hnext : s.next malloc loopIndex action = some s') :
    s'.InOrder (s.askedNext action asked) := by
  have inv := outputs.inv
  cases inv.step_of_next hnext with
  -- These three may call `postShutdown` or run its closure.
  | runAsync hpc hcopy hrun => exact h.runAsync outputs hpc hcopy hrun
  | runAfter hpc hcopy => exact h.runAfter inv hpc hcopy hok
  | userOp sid op _ => exact h.userOp outputs sid op
  -- The other steps neither call `postShutdown` nor run its closure.
  | threadOp | threadProc =>
      rw [askedNext_of_none rfl rfl]
      exact h.calm (.of_same (fun _ => rfl) fun _ => rfl)
  | threadAdd hnew =>
      rw [askedNext_of_none rfl rfl]
      exact (h.newSocket inv hnew).1.calm (.of_same (fun _ => rfl) fun _ => rfl)
  | poll hpc hreports hnodup =>
      rw [askedNext_of_none rfl rfl]
      exact h.poll hpc hreports hnodup
  | entry hpc hentries =>
      rw [askedNext_of_none rfl rfl]
      exact h.calm (calm_entry hpc hentries)
  | entriesDone hpc _ =>
      rw [askedNext_of_none rfl rfl]
      have hgo : Calm s (s.goto (.phase .async)) :=
        calm_goto_idle (by rw [hpc]; rfl) rfl fun _ => List.nil_sublist _
      exact h.calm (hgo.trans (.of_same (fun _ => rfl) fun _ => rfl))
  | call hpc =>
      rw [askedNext_of_none rfl rfl]
      exact h.call inv hpc hok
  -- Receiving changes neither the send list nor the closures.
  | recvLeave hpc _ _ =>
      rw [askedNext_of_none rfl rfl]
      refine h.calm (calm_goto_idle (by rw [hpc]; rfl) rfl fun other => ?_)
      rw [hpc]
      exact List.Sublist.refl _
  | recvResult hpc hd _ _ =>
      rw [askedNext_of_none rfl rfl]
      exact h.calm (calm_afterRecv hpc hd _ _)
  | dataReturn proclen hpc hd =>
      rw [askedNext_of_none rfl rfl]
      exact h.dataReturn proclen hpc hd
  | asyncDone hpc _ =>
      rw [askedNext_of_none rfl rfl]
      have hgo : Calm s (s.goto (.phase .after)) :=
        calm_goto_idle (by rw [hpc]; rfl) rfl fun _ => List.nil_sublist _
      -- The copy was empty, so that the swap keeps the order of the closures.
      have hafter : s.mCopyAfterLoopProcs = [] :=
        inv.queues_of_part.2.2 (by rw [hpc]; simp [IOLoopPc.part])
      refine h.calm (hgo.trans (.of_same (fun ds => ?_) fun _ => rfl))
      simp only [connection, goto, procsOf, historyOf, hafter, List.append_nil, List.nil_append]
  -- Within `quickFlush` the socket stays writable until `writev` is refused.
  | flushLeave hpc hd hlist =>
      rw [askedNext_of_none rfl rfl]
      exact h.flushLeave (outputs.streams _) hpc hd hlist
  | writev hpc hd _ _ _ =>
      rw [askedNext_of_none rfl rfl]
      exact h.afterWritev inv hpc hd _
  | writevNull _ _ _ _ =>
      rw [askedNext_of_none rfl rfl]
      exact h.calm (calm_fault s _)
  | erase hpc =>
      rw [askedNext_of_none rfl rfl]
      exact h.eraseTurn hpc
  | timer _ hfire =>
      rw [askedNext_of_none rfl rfl]
      exact h.calm (calm_fireTimer hfire)
  | afterDone hpc _ | userTimer hpc | timersDone hpc | codeReturn hpc =>
      rw [askedNext_of_none rfl rfl]
      exact h.calm (calm_goto_idle (by rw [hpc]; rfl) rfl fun _ => List.nil_sublist _)
  -- A new object has nothing queued and nothing asked for.
  | userAdd _ hnew henter =>
      rw [askedNext_of_none rfl rfl]
      exact (h.newSocket inv hnew).1.calm (calm_enter (fun _ => rfl) (fun _ => rfl) henter)
  | userAfter _ =>
      rw [askedNext_of_none rfl rfl]
      refine h.calm (.of_same (fun ds => ?_) fun _ => rfl)
      simp [connection, procsOf, historyOf, LoopProc.of?]
  | completeStale _ _ =>
      rw [askedNext_of_none rfl rfl]
      exact h.calm (calm_fault s _)
  | completeReturn hpc _ =>
      rw [askedNext_of_none rfl rfl]
      exact h.completeReturn hpc
  | disConnectReturn hpc =>
      rw [askedNext_of_none rfl rfl]
      exact h.disConnectReturn hpc

/-- When a step that meets the condition issues `shutdown(SHUT_WR)`, what was sent
before `postShutdown` is on the wire. -/
theorem InOrder.issued (h : s.InOrder asked) (outputs : s.Outputs) {action : IOLoopAction}
    (hok : s.shutsDrained action = true) (hnext : s.next malloc loopIndex action = some s')
    (hshuts : s.shuts action = some ds) (hd : s.heap ds = some d)
    (hopen : d.mSocket.isSome = true) :
    ∃ before later, asked ds = before :: later ∧ before <+: s.wire ds := by
  cases action with
  | runAfter =>
      have hpc : s.pc = .phase .after := by
        cases outputs.inv.step_of_next hnext with
        | runAfter hpc _ => exact hpc
      simp only [shuts] at hshuts
      split at hshuts
      next owner procs hcopy =>
        cases hshuts
        simp only [shutsDrained, hcopy, hd, Option.all_some, drained,
          Option.isNone_eq_false_iff.mpr hopen, Bool.false_or, Bool.or_eq_true, Bool.and_eq_true,
          List.isEmpty_iff] at hok
        exact (h ds).issued (outputs.streams ds) (procsOf_popped hcopy) (away_of_phase hpc ds) hd
          hopen (hok.imp id And.left)
      next => cases hshuts
  | _ => cases hshuts

end IOLoop

/-! ## Graceful half-close -/

/-- A `shutdown(SHUT_WR)`: what had been sent when it was asked for, and what the
kernel had accepted when it was issued. -/
structure Issued where
  ds : Ptr
  before : List UInt8
  wire : List UInt8

/-- The loop with a record of its half-closes. -/
structure HalfClose where
  loop : IOLoop
  asked : Ptr → List (List UInt8)
  issued : List Issued

namespace HalfClose

def initial : HalfClose := ⟨.initial, fun _ => [], []⟩

/-- The `shutdown(SHUT_WR)` that a step issues. -/
def issues (s : HalfClose) (action : IOLoopAction) : List Issued :=
  match s.loop.shuts action with
  | some ds =>
      if (s.loop.heap ds).any fun d => d.mSocket.isSome then
        (s.asked ds).head?.toList.map fun before => ⟨ds, before, s.loop.wire ds⟩
      else []
  | none => []

def next (malloc : Allocator) (loopIndex : ℕ) (s : HalfClose) (action : IOLoopAction) :
    Option HalfClose :=
  (s.loop.next malloc loopIndex action).map fun loop =>
    ⟨loop, s.loop.askedNext action s.asked, s.issued ++ s.issues action⟩

def system (malloc : Allocator) (loopIndex : ℕ) : System HalfClose IOLoopAction where
  init s := s = initial
  next := next malloc loopIndex

/-- Every `shutdown(SHUT_WR)` was issued when all bytes sent before were accepted,
and `writev` is never called for a socket after it. -/
structure Graceful (s : HalfClose) : Prop where
  drained : ∀ record ∈ s.issued, record.before <+: record.wire
  silent : ∀ ds d, s.loop.pc = .quickFlush ds → s.loop.heap ds = some d →
    d.mSocket.isSome = true → d.mSendList ≠ [] → d.shutWr = false

variable {malloc : Allocator} {loopIndex : ℕ} {s : HalfClose}

/-- A run of the recorded system is a run of the loop. -/
theorem loop_reachable (h : (system malloc loopIndex).Reachable s) :
    (IOLoop.system malloc loopIndex).Reachable s.loop := by
  induction h with
  | init hs =>
      subst hs
      exact .init rfl
  | step _ hnext ih =>
      obtain ⟨loop, hloop, rfl⟩ := Option.map_eq_some_iff.mp hnext
      exact ih.step hloop

/-- The steps of the condition, on the recorded system. -/
def shutsDrained (s : HalfClose) (action : IOLoopAction) : Bool := s.loop.shutsDrained action

theorem drained_issues {loop : IOLoop} {action : IOLoopAction}
    (hin : s.loop.InOrder s.asked) (outputs : s.loop.Outputs)
    (hok : s.loop.shutsDrained action = true)
    (hnext : s.loop.next malloc loopIndex action = some loop) :
    ∀ record ∈ s.issues action, record.before <+: record.wire := by
  intro record hrecord
  unfold issues at hrecord
  split at hrecord
  next ds hshuts =>
    split at hrecord
    next hopen =>
      obtain ⟨d, hd, hopen⟩ := Option.any_eq_true _ _ |>.mp hopen
      obtain ⟨before, later, hasked, hbefore⟩ := hin.issued outputs hok hnext hshuts hd hopen
      simp only [hasked, List.head?_cons, Option.toList_some, List.map_cons, List.map_nil,
        List.mem_singleton] at hrecord
      subst hrecord
      exact hbefore
    next => cases hrecord
  next => cases hrecord

/-- All half-closes are in order, and those that were issued were drained. -/
theorem inOrder_of_reachable (h : ((system malloc loopIndex).restrict shutsDrained).Reachable s) :
    s.loop.InOrder s.asked ∧ ∀ record ∈ s.issued, record.before <+: record.wire := by
  refine System.Reachable.invariant (I := fun s => s.loop.InOrder s.asked ∧
    ∀ record ∈ s.issued, record.before <+: record.wire) ?_ ?_ h
  · rintro s rfl
    exact ⟨IOLoop.inOrder_initial, by simp [initial]⟩
  · rintro s action s' hr ⟨hin, hissued⟩ hnext
    obtain ⟨hok, hnext⟩ := System.next_of_restrict hnext
    obtain ⟨loop, hloop, rfl⟩ := Option.map_eq_some_iff.mp hnext
    have outputs := IOLoop.outputs_of_reachable (loop_reachable hr.of_restrict)
    refine ⟨hin.next outputs hok hloop, ?_⟩
    intro record hrecord
    rcases List.mem_append.mp hrecord with hold | hnew
    · exact hissued record hold
    · exact drained_issues hin outputs hok hloop record hnew

/-- **Graceful half-close.**  In every run in which a shutdown closure finds its
socket writable, or with nothing to send and not armed, and `canSend` is not called
for an open socket whose next closure is the shutdown closure: whenever
`shutdown(SHUT_WR)` was issued, the kernel had accepted every byte that was in the
send list when `postShutdown` was called, and afterwards `writev` is not called on
the socket.  Every queued shutdown closure has its record. -/
theorem graceful_half_close (malloc : Allocator) (loopIndex : ℕ) (s : HalfClose)
    (h : ((system malloc loopIndex).restrict shutsDrained).Reachable s) :
    s.Graceful ∧ ∀ ds, (s.asked ds).length = (s.loop.procsOf ds).count .shutdown := by
  obtain ⟨hin, hissued⟩ := inOrder_of_reachable h
  refine ⟨⟨hissued, ?_⟩, fun ds => (hin ds).count⟩
  intro ds d hpc hd hopen _
  have horderly := (hin ds).opened d hd hopen
  have hactivity : (s.loop.connection ds).activity.isFlushing = true := by
    change (s.loop.pc.activity ds).isFlushing = true
    rw [hpc, IOLoop.activity_self rfl]
    rfl
  exact horderly.not_shut (horderly.flushing hactivity)

/-- A session enters, sends three bytes from the enter callback and asks for the
half-close; the loop goes on to the flush closure. -/
def sentAndAsked : List IOLoopAction :=
  [.threadAdd 5 1024, .poll [], .entriesDone, .runAsync true,
    .userOp ⟨0, 99, 0⟩ (.send [1, 2, 3] false), .userOp ⟨0, 99, 0⟩ .postShutdown, .userReturn,
    .asyncDone, .runAfter]

/-- The kernel takes all three bytes, and then the write side is closed. -/
theorem graceful_half_close_drained :
    ∃ s, ((system .unlimited 0).restrict shutsDrained).Reachable s ∧
      s.issued.map (fun record => (record.before, record.wire)) = [([1, 2, 3], [1, 2, 3])] ∧
      s.Graceful := by
  have hrun : (((system .unlimited 0).restrict shutsDrained).run initial
      (sentAndAsked ++ [.writev (.accepted 3), .erase, .erase, .flushLeave, .runAfter])).map
      (fun s => s.issued.map fun record => (record.before, record.wire)) =
      some [([1, 2, 3], [1, 2, 3])] := by decide
  obtain ⟨s, hs, heq⟩ := Option.map_eq_some_iff.mp hrun
  have hreach := System.reachable_of_run rfl hs
  exact ⟨s, hreach, heq, (graceful_half_close .unlimited 0 s hreach).1⟩

/-- The kernel takes two of the three bytes.  The write side is closed nevertheless,
the kernel then reports the socket writable, and `writev` is called for the third
byte. -/
theorem not_graceful_half_close_partial :
    ∃ s ds d, (system .unlimited 0).Reachable s ∧
      s.issued.map (fun record => (record.before, record.wire)) = [([1, 2, 3], [1, 2])] ∧
      s.loop.pc = .quickFlush ds ∧ s.loop.heap ds = some d ∧ d.mSocket.isSome = true ∧
      d.mSendList ≠ [] ∧ d.shutWr = true ∧ ¬ s.Graceful := by
  have hrun : ((system .unlimited 0).run initial
      (sentAndAsked ++ [.writev (.accepted 2), .erase, .runAfter, .afterDone, .timersDone,
        .userReturn, .poll [⟨0, false, false, true⟩], .entry, .call, .call, .entriesDone,
        .asyncDone, .runAfter])).bind
      (fun s => (s.loop.heap 0).map fun d =>
        (s.issued.map fun record => (record.before, record.wire), s.loop.pc, d.mSocket.isSome,
          d.mSendList.isEmpty, d.shutWr)) =
      some ([([1, 2, 3], [1, 2])], .quickFlush 0, true, false, true) := by decide
  obtain ⟨s, hs, heq⟩ := Option.bind_eq_some_iff.mp hrun
  obtain ⟨d, hd, heq⟩ := Option.map_eq_some_iff.mp heq
  simp only [Prod.mk.injEq] at heq
  obtain ⟨hissued, hpc, hopen, hlist, hshut⟩ := heq
  have hne : d.mSendList ≠ [] := by
    intro hnil
    simp [hnil] at hlist
  refine ⟨s, 0, d, System.reachable_of_run rfl hs, hissued, hpc, hd, hopen, hne, hshut, ?_⟩
  intro hgraceful
  rw [hgraceful.silent 0 d hpc hd hopen hne] at hshut
  cases hshut

end HalfClose

end Brynet
