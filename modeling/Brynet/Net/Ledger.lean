import Brynet.Lib.Merge
import Brynet.Net.ConnectionLife
import Brynet.Net.SoundNext

/-!
# The ledger of the loop

What the loop knows about ids and packets, without the sockets: which ids were
made for which sockets, the session table, and the `send` calls that were made,
that wait in the async procs, that were looked up, and that reached a socket.
`ledger_next` says once what a step of the loop can do to it; the invariants of
the ledger follow from that alone.

`Ledger.Step` has one constructor for each thing that matters: an id is made, a slot is
cleared, a call is sent, looked up, or both.  `Good.ledger_next` goes through the
actions of the loop: most leave the ledger alone, by one lemma for each function of
the machine (`ledger_flush`, `ledger_afterRecv` and so on); those that apply an
operation need that the user data of a socket in the table is the id it was made for
(`Good.mUD_iff`).
-/

namespace Brynet

open Memory Transition

/-- A `send` call: who made it, on which id, with which packet. -/
abbrev SendCall := Caller × SessionId × List UInt8

structure Ledger where
  made : List (Ptr × SessionId)
  data : IOLoopData
  pending : List SendCall
  sent : List SendCall
  handled : List SendCall
  delivered : Ptr → List (Caller × List UInt8)

/-- The `send` call that an action makes. -/
def IOLoopAction.send? : IOLoopAction → Option SendCall
  | threadOp t sid op => op.packet?.map fun packet => (some t, sid, packet)
  | userOp sid op => op.packet?.map fun packet => (none, sid, packet)
  | _ => none

def AsyncProc.send? : AsyncProc → Option SendCall
  | session caller sid op => op.packet?.map fun packet => (caller, sid, packet)
  | enter _ | user => none

namespace IOLoop

/-- The ids that were made, with their sockets. -/
def madeIn (trace : List (Ptr × SocketEvent)) : List (Ptr × SessionId) :=
  trace.filterMap fun (ds, event) => event.id?.map fun sid => (ds, sid)

def ledger (s : IOLoop) : Ledger where
  made := madeIn s.trace
  data := s.data
  pending := (s.mCopyAsyncProcs ++ s.mAsyncProcs).filterMap AsyncProc.send?
  sent := s.sent
  handled := s.handled
  delivered := s.delivered

variable {s s' : IOLoop} {ds : Ptr} {d : DataSocket} {malloc : Allocator} {loopIndex : ℕ}

/-! ## What leaves the ledger alone -/

@[simp] theorem ledger_goto (s : IOLoop) (pc : IOLoopPc) : (s.goto pc).ledger = s.ledger := rfl

@[simp] theorem ledger_store (s : IOLoop) (ds : Ptr) (d : DataSocket)
    (result : DataSocket × List AfterProc) : (s.store ds d result).ledger = s.ledger := by
  have htrace : madeIn (s.store ds d result).trace = madeIn s.trace := by
    simp only [madeIn, store, List.filterMap_append]
    split <;> simp [SocketEvent.id?]
  rw [ledger, htrace]
  rfl

theorem ledger_log {event : SocketEvent} (hevent : event.id? = none) :
    (s.log ds event).ledger = s.ledger := by
  have htrace : madeIn (s.log ds event).trace = madeIn s.trace := by
    simp [madeIn, log, hevent]
  rw [ledger, htrace]
  rfl

@[simp] theorem ledger_cancelTimer (s : IOLoop) (id : Option ℕ) :
    (s.cancelTimer id).ledger = s.ledger := rfl

@[simp] theorem ledger_callSocket (s : IOLoop) (ds : Ptr)
    (f : DataSocket → DataSocket × List AfterProc) : (s.callSocket ds f).ledger = s.ledger := by
  unfold callSocket withSocket
  split
  · exact ledger_store ..
  · rfl

theorem ledger_startPingCheckTimer (s : IOLoop) (held : Option ℕ) (ds : Ptr) (d : DataSocket) :
    (s.startPingCheckTimer held ds d).ledger = s.ledger := by
  unfold startPingCheckTimer
  split <;> rfl

theorem ledger_setHeartBeat (s : IOLoop) (ds : Ptr) (checkTime : ℕ) :
    (s.setHeartBeat ds checkTime).ledger = s.ledger := by
  unfold setHeartBeat withSocket
  split
  · simp only [ledger_startPingCheckTimer]
    split <;> rfl
  · rfl

theorem ledger_pingCheck (s : IOLoop) (held : Option ℕ) (ds : Ptr) :
    (s.pingCheck held ds).ledger = s.ledger := by
  unfold pingCheck withSocket
  split
  · dsimp only
    split
    · exact ledger_startPingCheckTimer ..
    · exact ledger_store ..
  · rfl

@[simp] theorem ledger_delete (s : IOLoop) (ds : Ptr) : (s.delete ds).ledger = s.ledger := by
  unfold delete withSocket
  split
  · dsimp only
    split <;> rfl
  · rfl

theorem ledger_flush (s : IOLoop) (ds : Ptr) : (s.flush ds).ledger = s.ledger := by
  unfold flush withSocket
  split
  · dsimp only
    split
    · exact ledger_store ..
    · exact ledger_store ..
  · rfl

theorem ledger_afterWritev (s : IOLoop) (ds : Ptr) (d : DataSocket) (r : WritevResult) :
    (s.afterWritev ds d r).ledger = s.ledger := by
  cases r with
  | accepted => rfl
  | wouldBlock => exact ledger_store ..
  | error => exact ledger_store ..

theorem ledger_afterErase (s : IOLoop) (ds : Ptr) (d : DataSocket) (full : Bool) :
    (s.afterErase ds d full).ledger = s.ledger := by
  unfold afterErase
  split
  · rfl
  · split
    · rfl
    · exact ledger_store ..

theorem ledger_eraseTurn (s : IOLoop) (ds : Ptr) (tmpLen : ℕ) (full : Bool) :
    (s.eraseTurn ds tmpLen full).ledger = s.ledger := by
  unfold eraseTurn withSocket
  split
  · dsimp only
    split
    · exact ledger_afterErase ..
    · split
      · rw [ledger_afterErase, ledger_goto, ledger_store]
      · split
        · rfl
        · exact ledger_store ..
  · rfl

theorem ledger_afterRecv (s : IOLoop) (ds : Ptr) (d : DataSocket) (rest : List ChannelCall)
    (tryRecvLen : ℕ) (r : RecvResult) :
    (s.afterRecv malloc ds d rest tryRecvLen r).ledger = s.ledger := by
  cases r with
  | data bytes =>
      simp only [afterRecv]
      split
      · rfl
      · split
        · rw [ledger_goto, ledger_log rfl, ledger_store]
        · exact ledger_store ..
  | wouldBlock => rfl
  | eof | error => exact ledger_store ..

theorem ledger_channelCall (s : IOLoop) (ds : Ptr) (rest : List ChannelCall) :
    (s.channelCall ds rest).ledger = s.ledger := by
  cases rest with
  | nil => rfl
  | cons call rest =>
      cases call with
      | canRecv => rfl
      | canSend | onClose => exact ledger_callSocket ..

theorem ledger_fireTimer {id : ℕ} (h : s.fireTimer id = some s') : s'.ledger = s.ledger := by
  obtain ⟨timer, -, rfl⟩ := Option.map_eq_some_iff.mp h
  split
  · exact ledger_pingCheck ..
  · rfl

theorem ledger_newSocket {socket : Sock} {maxRecvBufferSize : ℕ}
    (h : s.newSocket malloc socket maxRecvBufferSize = some (ds, s')) :
    s'.ledger = s.ledger := by
  unfold newSocket at h
  split at h
  · cases h
  · obtain ⟨d, -, heq⟩ := Option.map_eq_some_iff.mp h
    rw [Prod.mk.injEq] at heq
    rw [← heq.2]
    rfl

end IOLoop

/-! ## What a step can do -/

namespace Ledger

/-- The socket an operation on `sid` is applied to. -/
def find (l : Ledger) (sid : SessionId) : Option Ptr :=
  match l.data.mDataSockets.get sid.index.toNat with
  | some (some ds) => if (ds, sid) ∈ l.made then some ds else none
  | _ => none

/-- The lookup for a `send` call is made. -/
def handle (l : Ledger) (call : SendCall) : Ledger :=
  { l with
    handled := l.handled ++ [call]
    delivered := match l.find call.2.1 with
      | some ds => Function.update l.delivered ds (l.delivered ds ++ [(call.1, call.2.2)])
      | none => l.delivered }

/-- A step of the ledger, with the `send` call that is made in it. -/
inductive Step (loopIndex : ℕ) : Option SendCall → Ledger → Ledger → Prop
  | same {l : Ledger} : Step loopIndex none l l
  | queued {l : Ledger} {call : SendCall} : call.1 ≠ none →
      Step loopIndex (some call) l
        { l with pending := l.pending ++ [call], sent := l.sent ++ [call] }
  | dequeued {l : Ledger} {call : SendCall} {rest : List SendCall} : l.pending = call :: rest →
      Step loopIndex none l ({ l with pending := rest }.handle call)
  | called {l : Ledger} {call : SendCall} : call.1 = none →
      Step loopIndex (some call) l ({ l with sent := l.sent ++ [call] }.handle call)
  | entered {l : Ledger} {ds : Ptr} {sid : SessionId} {data : IOLoopData} :
      l.data.makeID loopIndex = some (sid, data) → (∀ session ∈ l.made, session.1 ≠ ds) →
      Step loopIndex none l { l with
        made := l.made ++ [(ds, sid)], data := data.setSocket (some ds) sid }
  | closed {l : Ledger} (sid : SessionId) :
      Step loopIndex none l { l with data := l.data.procDataSocketClose sid }

end Ledger

namespace IOLoop

variable {s s' : IOLoop} {ds : Ptr} {d : DataSocket} {sid : SessionId} {malloc : Allocator}
  {loopIndex : ℕ}

/-- A good state in which every history is a life. -/
structure Good (s : IOLoop) : Prop where
  inv : s.Inv
  lives : ∀ ds, (s.connection ds).Lives

theorem Good.sound (h : s.Good) (hsound : Sound s s') : s'.Good := by
  refine ⟨h.inv.sound hsound, ?_⟩
  intro ds
  have hboth : (s'.connection ds).Wf ∧ (s'.connection ds).Lives := by
    refine Connection.Steps.preserve (I := fun c => c.Wf ∧ c.Lives) ?_ (hsound.steps ds)
      ⟨h.inv.wf ds, h.lives ds⟩
    rintro c c' ⟨hwf, hlives⟩ hstep
    exact ⟨hwf.step hstep, hlives.step hwf hstep⟩
  exact hboth.2

theorem good_of_reachable (h : (system malloc loopIndex).Reachable s) : s.Good :=
  ⟨inv_of_reachable h, connection_invariant Connection.lives_absent
    (fun _ _ hwf hlives hstep => Connection.Lives.step hlives hwf hstep) h⟩

theorem mem_madeIn {trace : List (Ptr × SocketEvent)} :
    (ds, sid) ∈ madeIn trace ↔ (ds, .makeID sid) ∈ trace := by
  simp only [madeIn, List.mem_filterMap, Prod.exists, Option.map_eq_some_iff, Prod.mk.injEq]
  constructor
  · rintro ⟨owner, event, hmem, made, hmade, rfl, rfl⟩
    cases event with
    | makeID =>
        cases hmade
        exact hmem
    | _ => cases hmade
  · intro hmem
    exact ⟨ds, .makeID sid, hmem, sid, rfl, rfl, rfl⟩

theorem mem_historyOf {event : SocketEvent} :
    event ∈ s.historyOf ds ↔ (ds, event) ∈ s.trace := by
  simp [historyOf]

theorem mem_madeIDs {history : List SocketEvent} :
    sid ∈ madeIDs history ↔ .makeID sid ∈ history := by
  simp only [madeIDs, List.mem_filterMap]
  constructor
  · rintro ⟨event, hmem, hid⟩
    cases event with
    | makeID =>
        cases hid
        exact hmem
    | _ => cases hid
  · intro hmem
    exact ⟨_, hmem, rfl⟩

/-- The ids made for an entered socket. -/
theorem madeIDs_of_enteredPhase {history : List SocketEvent} {activity : Activity}
    (h : lifeCycle.run .fresh history = some (Connection.enteredPhase sid d activity)) :
    madeIDs history = [sid] := by
  have hsays := says_of_run h
  unfold Connection.enteredPhase at hsays
  split at hsays
  · obtain ⟨pre, hpre, rfl⟩ := hsays
    rw [madeIDs, List.filterMap_append, ← madeIDs, hpre.ids]
    rfl
  · split at hsays
    · exact hsays.1.ids
    · exact hsays.ids

/-- The user data of a live socket is the id that was made for it. -/
theorem Good.mUD_iff (h : s.Good) (hd : s.heap ds = some d) :
    d.mUD = some sid ↔ (ds, sid) ∈ madeIn s.trace := by
  rw [mem_madeIn, ← mem_historyOf, ← mem_madeIDs]
  by_cases hentered : d.mEventLoop = true
  · obtain ⟨made, hud, hrun⟩ := (h.lives ds).entered (h.inv.wf ds) hd hentered
    have hids : madeIDs (s.historyOf ds) = [made] := madeIDs_of_enteredPhase hrun
    rw [hud, hids, List.mem_singleton, Option.some.injEq, eq_comm]
  · have hnew := (((h.inv.wf ds).posted d hd).unentered (Bool.not_eq_true _ ▸ hentered)).1
    obtain ⟨phase, hrun, hphase⟩ := h.lives ds
    have hsocket : (s.connection ds).socket = some d := hd
    simp only [Connection.InPhase, hsocket, hnew.ud] at hphase
    subst hphase
    have hnil : s.historyOf ds = [] := says_of_run hrun
    simp [hnew.ud, hnil, madeIDs]

/-- No id was made for a socket that has not entered. -/
theorem Good.not_made (h : s.Good) (hd : s.heap ds = some d) (hno : d.mEventLoop = false) :
    ∀ session ∈ madeIn s.trace, session.1 ≠ ds := by
  rintro ⟨owner, made⟩ hmem rfl
  have hud := (h.mUD_iff hd).mpr hmem
  rw [(((h.inv.wf owner).posted d hd).unentered hno).1.ud] at hud
  cases hud

/-- A lookup that finds nothing. -/
theorem ledger_missed (hfind : s.ledger.find sid = none) (caller : Caller) (op : SessionOp) :
    ({ s with handled := logSend s.handled caller sid op } : IOLoop).ledger =
      match op.packet? with
      | some packet => s.ledger.handle (caller, sid, packet)
      | none => s.ledger := by
  cases hop : op.packet? with
  | none => simp [ledger, logSend, hop]
  | some packet =>
      simp only [Ledger.handle, hfind]
      simp [ledger, logSend, hop]

/-- `runOp` makes the lookup for the `send` call of an operation, if it is one. -/
theorem Good.ledger_runOp (h : s.Good) (caller : Caller) (sid : SessionId) (op : SessionOp) :
    (s.runOp caller sid op).ledger =
      match op.packet? with
      | some packet => s.ledger.handle (caller, sid, packet)
      | none => s.ledger := by
  unfold runOp
  dsimp only
  split
  · rename_i ds hget
    obtain ⟨-, d, sid', hd, -, -⟩ := h.inv.refs.slots _ ds hget
    have hiff : d.mUD = some sid ↔ (ds, sid) ∈ madeIn s.trace := h.mUD_iff hd
    simp only [withSocket, hd]
    split
    · rename_i hud
      have hmade : (ds, sid) ∈ madeIn s.trace := hiff.mp hud
      have hfind : s.ledger.find sid = some ds := by
        simp only [Ledger.find, ledger, hget, hmade, if_true]
      cases op with
      | send packet callback =>
          simp only [applyOp, ledger_callSocket, SessionOp.packet?, Ledger.handle, hfind]
          simp [ledger, log, madeIn, SocketEvent.id?, logSend, SessionOp.packet?]
      | postShutdown | postDisConnect =>
          simp only [applyOp, ledger_callSocket, SessionOp.packet?]
          rw [ledger_log rfl]
          simp [ledger, logSend, SessionOp.packet?]
      | setHeartBeat checkTime =>
          simp only [applyOp, ledger_setHeartBeat, SessionOp.packet?]
          rw [ledger_log rfl]
          simp [ledger, logSend, SessionOp.packet?]
    · rename_i hud
      -- The slot is in use again: the socket is there, but it has another id.
      have hmade : (ds, sid) ∉ madeIn s.trace := fun hmem => hud (hiff.mpr hmem)
      have hfind : s.ledger.find sid = none := by
        simp only [Ledger.find, ledger, hget, hmade, if_false]
      exact ledger_missed hfind caller op
  · rename_i hmiss
    have hfind : s.ledger.find sid = none := by
      unfold Ledger.find
      split
      · rename_i ds hget
        exact absurd hget (hmiss ds)
      · rfl
    exact ledger_missed hfind caller op

theorem Good.ledger_enter (h : s.Good) {linked : Bool} {back : IOLoopPc} (hd : s.heap ds = some d)
    (hno : d.mEventLoop = false) (henter : s.enter loopIndex ds linked back = some s') :
    Ledger.Step loopIndex none s.ledger s'.ledger := by
  simp only [enter, hd, hno, Bool.false_eq_true, if_false] at henter
  split at henter
  · obtain ⟨mid, hmid, rfl⟩ := Option.map_eq_some_iff.mp henter
    obtain ⟨⟨sid, data⟩, hmake, rfl⟩ := Option.map_eq_some_iff.mp hmid
    have hstep := Ledger.Step.entered (l := s.ledger) hmake (h.not_made hd hno)
    simpa [ledger, madeIn, SocketEvent.id?] using hstep
  · cases henter
    simp only [ledger_delete, ledger_store]
    exact .same

theorem ledger_disConnect (s : IOLoop) (ds : Ptr) :
    Ledger.Step loopIndex none s.ledger (s.disConnect ds).ledger := by
  unfold disConnect withSocket
  split
  · dsimp only
    split
    · rename_i sid hsid
      rw [ledger_goto, ledger_log rfl]
      exact .closed sid
    · exact .same
  · exact .same

theorem ledger_runAfterProc (s : IOLoop) (proc : LoopProc) (procs : List LoopProc) :
    Ledger.Step loopIndex none s.ledger ((s.popped procs).runAfterProc proc).ledger := by
  cases proc with
  | socket ds proc =>
      have hlog : ((s.popped procs).log ds (.ran proc)).ledger = s.ledger := ledger_log rfl
      cases proc with
      | flush =>
          rw [runAfterProc, ledger_flush, hlog]
          exact .same
      | shutdown =>
          rw [runAfterProc, ledger_callSocket, hlog]
          exact .same
      | disConnect =>
          rw [runAfterProc, ← hlog]
          exact ledger_disConnect _ ds
  | user => exact .same

theorem Good.ledger_runAsync (h : s.Good) {proc : AsyncProc} {procs : List AsyncProc}
    {linked : Bool} (hcopy : s.mCopyAsyncProcs = proc :: procs)
    (hrun : { s with mCopyAsyncProcs := procs }.runAsyncProc loopIndex linked proc = some s') :
    Ledger.Step loopIndex none s.ledger s'.ledger := by
  obtain ⟨hpop, -⟩ := h.inv.sound_popAsync hcopy
  have h' := h.sound hpop
  have hpending : s.ledger.pending = proc.send?.toList ++
      ({ s with mCopyAsyncProcs := procs } : IOLoop).ledger.pending := by
    simp only [ledger, hcopy, List.cons_append]
    cases hsend : proc.send? with
    | none => rw [List.filterMap_cons_none hsend]; rfl
    | some call => rw [List.filterMap_cons_some hsend]; rfl
  have hother : ∀ {l : Ledger}, l = ({ s with mCopyAsyncProcs := procs } : IOLoop).ledger →
      proc.send? = none → l = s.ledger := by
    rintro l rfl hsend
    rw [hsend] at hpending
    simpa [ledger] using hpending.symm
  cases proc with
  | session caller sid op =>
      cases hrun
      rw [h'.ledger_runOp]
      cases hop : op.packet? with
      | none =>
          have hsend : AsyncProc.send? (.session caller sid op) = none := by
            simp [AsyncProc.send?, hop]
          rw [hother rfl hsend]
          exact .same
      | some packet =>
          have hsend : AsyncProc.send? (.session caller sid op) = some (caller, sid, packet) := by
            simp [AsyncProc.send?, hop]
          rw [hsend] at hpending
          exact .dequeued hpending
  | enter ds =>
      obtain ⟨d, hd, hno⟩ := h.inv.refs.entering ds (by simp [hcopy])
      have hstep := h'.ledger_enter hd hno hrun
      rwa [hother rfl rfl] at hstep
  | user =>
      cases hrun
      rw [ledger_goto, hother rfl rfl]
      exact .same

theorem ledger_threadOp (s : IOLoop) (t : Thread) (sid : SessionId) (op : SessionOp) :
    Ledger.Step loopIndex (IOLoopAction.threadOp t sid op).send? s.ledger (IOLoop.ledger { s with
      mAsyncProcs := s.mAsyncProcs ++ [.session (some t) sid op]
      sent := logSend s.sent (some t) sid op }) := by
  cases hop : op.packet? with
  | none =>
      have hsame : ({ s with
          mAsyncProcs := s.mAsyncProcs ++ [.session (some t) sid op]
          sent := logSend s.sent (some t) sid op } : IOLoop).ledger = s.ledger := by
        simp [ledger, logSend, AsyncProc.send?, hop]
      rw [hsame, IOLoopAction.send?, hop]
      exact .same
  | some packet =>
      have hcaller : ((some t, sid, packet) : SendCall).1 ≠ none := by simp
      have hstep : Ledger.Step loopIndex _ s.ledger _ := .queued hcaller
      simpa [ledger, logSend, AsyncProc.send?, IOLoopAction.send?, hop] using hstep

theorem Good.ledger_userOp (h : s.Good) (sid : SessionId) (op : SessionOp) :
    Ledger.Step loopIndex (IOLoopAction.userOp sid op).send? s.ledger
      (IOLoop.runOp { s with sent := logSend s.sent none sid op } none sid op).ledger := by
  have hsent : Sound s { s with sent := logSend s.sent none sid op } := h.inv.sound_sent _
  rw [(h.sound hsent).ledger_runOp]
  cases hop : op.packet? with
  | none =>
      have hsame : ({ s with sent := logSend s.sent none sid op } : IOLoop).ledger = s.ledger := by
        simp [ledger, logSend, hop]
      rw [IOLoopAction.send?, hop]
      simp only [hsame]
      exact .same
  | some packet =>
      have hcaller : ((none, sid, packet) : SendCall).1 = none := rfl
      have hstep : Ledger.Step loopIndex _ s.ledger _ := .called hcaller
      simpa [ledger, logSend, IOLoopAction.send?, hop] using hstep

/-- **What a step does to the ledger.** -/
theorem Good.ledger_next (h : s.Good) {action : IOLoopAction}
    (hnext : s.next malloc loopIndex action = some s') :
    Ledger.Step loopIndex action.send? s.ledger s'.ledger := by
  have hsame : s'.ledger = s.ledger → Ledger.Step loopIndex none s.ledger s'.ledger := by
    intro heq
    rw [heq]
    exact .same
  cases h.inv.step_of_next hnext with
  | threadOp t sid op => exact ledger_threadOp s t sid op
  | @threadAdd _ _ ds mid hnew =>
      have hqueued : ({ mid with mAsyncProcs := mid.mAsyncProcs ++ [.enter ds] } : IOLoop).ledger =
          mid.ledger := by
        simp [ledger, AsyncProc.send?]
      exact hsame (hqueued.trans (ledger_newSocket hnew))
  | threadProc =>
      apply hsame
      simp [ledger, AsyncProc.send?]
  | entriesDone hpc _ =>
      -- The copy was empty, so that the swap keeps the order of the calls.
      have hcopy : s.mCopyAsyncProcs = [] :=
        h.inv.queues_of_part.2.1 (by rw [hpc]; simp [IOLoopPc.part])
      apply hsame
      simp [ledger, goto, hcopy]
  | call _ => exact hsame (ledger_channelCall ..)
  | recvResult _ _ _ _ => exact hsame (ledger_afterRecv ..)
  | dataReturn _ _ _ => exact hsame (ledger_store ..)
  | runAsync _ hcopy hrun => exact h.ledger_runAsync hcopy hrun
  | runAfter _ _ => exact ledger_runAfterProc s _ _
  | writev _ _ _ _ _ => exact hsame (ledger_afterWritev ..)
  | erase _ => exact hsame (ledger_eraseTurn ..)
  | timer _ hfire => exact hsame (ledger_fireTimer hfire)
  | userOp sid op _ => exact h.ledger_userOp sid op
  | userAdd _ hnew henter =>
      obtain ⟨hsound, rfl, -, -, -, -, d, hd, hno⟩ := h.inv.sound_newSocket hnew
      have hstep := (h.sound hsound).ledger_enter hd hno henter
      rwa [ledger_newSocket hnew] at hstep
  | completeReturn _ _ =>
      apply hsame
      rw [ledger_goto, ledger_callSocket]
  | disConnectReturn _ =>
      apply hsame
      rw [ledger_goto, ledger_delete]
  | poll | entry | recvLeave | asyncDone | afterDone | flushLeave | writevNull | userTimer
  | timersDone | userAfter | completeStale | codeReturn => exact .same

end IOLoop

end Brynet
