import Brynet.Net.Connection

/-!
# The history of a connection follows the life cycle

Along every run of a connection the history is one that the automaton of
`Brynet.Net.LifeCycle` accepts, and the phase it ends in is the one the object is
in.  What the phases say about histories is then known for every connection.

`Lives` is the invariant, and `Lives.step` goes through the steps of a connection:

* before it has entered, an object is in the phase `fresh`; if it cannot enter, it is
  closed and deleted, in the phase `refused`;
* an object with an id is in the phase `enteredPhase`, which depends on its socket and
  on the activity only, so most steps leave it alone (`Lives.stay`, `Lives.flushing`);
* a call may close the socket, which takes `opened` to `shut` (`Lives.call`);
* the disconnect closure takes `shut` to `ended`, and deleting the object leaves it.
-/

namespace Brynet

open Transition

namespace Connection

variable {c c' : Connection} {d : DataSocket} {history : List SocketEvent}

/-- The phase of a socket that has entered with the id `sid`. -/
def enteredPhase (sid : SessionId) (d : DataSocket) (activity : Activity) : LifePhase :=
  if activity = .closing then .ended sid
  else if d.mSocket.isSome then .opened sid
  else .shut sid

/-- The phases a connection can be in. -/
def InPhase (socket : Option DataSocket) (activity : Activity) (phase : LifePhase) : Prop :=
  match socket with
  | none => phase = .fresh ∨ phase = .refused ∨ ∃ sid, phase = .ended sid
  | some d =>
      match d.mUD with
      | none => phase = .fresh
      | some sid => phase = enteredPhase sid d activity

/-- The history is a life, up to the phase the connection is in. -/
def Lives (c : Connection) : Prop :=
  ∃ phase, lifeCycle.run .fresh c.history = some phase ∧ InPhase c.socket c.activity phase

theorem lives_absent : absent.Lives := ⟨.fresh, rfl, .inl rfl⟩

theorem enteredPhase_of_open {sid : SessionId} {activity : Activity}
    (hactivity : activity ≠ .closing) (hopen : d.mSocket.isSome = true) :
    enteredPhase sid d activity = .opened sid := by
  simp [enteredPhase, hactivity, hopen]

theorem enteredPhase_of_closed {sid : SessionId} {activity : Activity}
    (hactivity : activity ≠ .closing) (hclosed : d.mSocket = none) :
    enteredPhase sid d activity = .shut sid := by
  simp [enteredPhase, hactivity, hclosed]

/-- The phase of an entered socket, and its history. -/
theorem Lives.entered (h : c.Lives) (hwf : c.Wf) (hd : c.socket = some d)
    (hentered : d.mEventLoop = true) :
    ∃ sid, d.mUD = some sid ∧
      lifeCycle.run .fresh c.history = some (enteredPhase sid d c.activity) := by
  obtain ⟨phase, hrun, hphase⟩ := h
  obtain ⟨sid, hud⟩ := Option.isSome_iff_exists.mp ((hwf.posted d hd).entered hentered)
  simp only [InPhase, hd, hud] at hphase
  exact ⟨sid, hud, hphase ▸ hrun⟩

/-- An event that the phase allows. -/
theorem run_concat_event {phase phase' : LifePhase} (event : SocketEvent)
    (hrun : lifeCycle.run .fresh history = some phase) (hnext : phase.next event = some phase') :
    lifeCycle.run .fresh (history ++ [event]) = some phase' := by
  rw [System.run_concat, hrun]
  exact hnext

theorem Lives.of_entered {sid : SessionId} {phase : LifePhase} (hd : c.socket = some d)
    (hud : d.mUD = some sid) (hrun : lifeCycle.run .fresh c.history = some phase)
    (hphase : phase = enteredPhase sid d c.activity) : c.Lives :=
  ⟨phase, hrun, by simpa only [InPhase, hd, hud] using hphase⟩

/-- An event between entering and the disconnect closure that leaves the phase
alone. -/
theorem Lives.log (h : c.Lives) (hwf : c.Wf) (hd : c.socket = some d)
    (hentered : d.mEventLoop = true) {event : SocketEvent}
    (hstay : ∀ sid, d.mUD = some sid →
      (enteredPhase sid d c.activity).next event = some (enteredPhase sid d c.activity)) :
    (c.log event).Lives := by
  obtain ⟨sid, hud, hrun⟩ := h.entered hwf hd hentered
  exact .of_entered hd hud (run_concat_event event hrun (hstay sid hud)) rfl

/-- Closing an open socket, or a call that changes nothing. -/
theorem Lives.call (h : c.Lives) (hwf : c.Wf) (hd : c.socket = some d)
    (hentered : d.mEventLoop = true) (hactivity : c.activity ≠ .closing)
    {result : DataSocket × List AfterProc} (hud : result.1.mUD = d.mUD)
    (hsocket : result.1.mSocket = d.mSocket ∨ result.1.mSocket = none) :
    (c.call d result).Lives := by
  obtain ⟨sid, hsid, hrun⟩ := h.entered hwf hd hentered
  have hud' : result.1.mUD = some sid := hud.trans hsid
  by_cases hopen : d.mSocket.isSome = true
  · rw [enteredPhase_of_open hactivity hopen] at hrun
    by_cases hstill : result.1.mSocket.isSome = true
    · have hhistory : (c.call d result).history = c.history := by
        simp [Connection.call, Option.isNone_iff_eq_none, Option.ne_none_iff_isSome.mpr hstill]
      exact .of_entered rfl hud' (hhistory ▸ hrun) (enteredPhase_of_open hactivity hstill).symm
    -- The call closes the socket, which the history notes.
    · have hnone : result.1.mSocket = none := by simpa using hstill
      have hhistory : (c.call d result).history = c.history ++ [.closed] := by
        simp [Connection.call, hopen, hnone]
      exact .of_entered rfl hud' (hhistory ▸ run_concat_event .closed hrun rfl)
        (enteredPhase_of_closed hactivity hnone).symm
  · have hnone : d.mSocket = none := by simpa using hopen
    have hstill : result.1.mSocket = none := by
      rcases hsocket with hsocket | hsocket
      · exact hsocket.trans hnone
      · exact hsocket
    have hhistory : (c.call d result).history = c.history := by
      simp [Connection.call, hnone]
    rw [enteredPhase_of_closed hactivity hnone] at hrun
    exact .of_entered rfl hud' (hhistory ▸ hrun) (enteredPhase_of_closed hactivity hstill).symm

/-- The parts of `quickFlush` and of an event leave the phase alone. -/
theorem Lives.stay (h : c.Lives) (hwf : c.Wf) {d' : DataSocket} (hd : c.socket = some d)
    (hentered : d.mEventLoop = true) (hactivity : c.activity ≠ .closing)
    (hsocket : c'.socket = some d') (hnext : c'.activity ≠ .closing)
    (hhistory : c'.history = c.history) (hud : d'.mUD = d.mUD)
    (hsame : d'.mSocket = d.mSocket) : c'.Lives := by
  obtain ⟨sid, hsid, hrun⟩ := h.entered hwf hd hentered
  refine .of_entered hsocket (hud.trans hsid) (hhistory ▸ hrun) ?_
  simp [enteredPhase, hactivity, hnext, hsame]

/-- The parts of `quickFlush`: the loop thread is in the socket already. -/
theorem Lives.flushing (h : c.Lives) (hwf : c.Wf) {d' : DataSocket} (hd : c.socket = some d)
    (haway : c.activity ≠ .away) (hactivity : c.activity ≠ .closing)
    (hsocket : c'.socket = some d') (hnext : c'.activity ≠ .closing)
    (hhistory : c'.history = c.history) (hud : d'.mUD = d.mUD)
    (hsame : d'.mSocket = d.mSocket) : c'.Lives := by
  have hentered := (hwf.posted d hd).entered_of_ne_away haway
  exact h.stay hwf hd hentered hactivity hsocket hnext hhistory hud hsame

/-- Running a flush or shutdown closure. -/
theorem next_ran {sid : SessionId} {activity : Activity} (proc : AfterProc)
    (hactivity : activity ≠ .closing) (hproc : proc ≠ .disConnect) :
    (enteredPhase sid d activity).next (.ran proc) = some (enteredPhase sid d activity) := by
  cases proc with
  | disConnect => exact absurd rfl hproc
  | flush | shutdown =>
      simp only [enteredPhase, hactivity, if_false]
      split <;> rfl

theorem next_applied {sid : SessionId} {activity : Activity} (hactivity : activity ≠ .closing) :
    (enteredPhase sid d activity).next (.applied sid) = some (enteredPhase sid d activity) := by
  simp only [enteredPhase, hactivity, if_false]
  split <;> simp [LifePhase.next]

theorem Lives.step (h : c.Lives) (hwf : c.Wf) (hstep : Step c c') : c'.Lives := by
  cases hstep with
  -- Up to the enter callback an object has no id, so its phase is `fresh` or `refused`.
  | created hnew => exact ⟨.fresh, rfl, by simp [InPhase, hnew.ud]⟩
  | refused hd hno =>
      obtain ⟨phase, hrun, hphase⟩ := h
      have hud := ((hwf.posted _ hd).unentered hno).1.ud
      simp only [InPhase, hd, hud] at hphase
      subst hphase
      exact ⟨.refused, run_concat_event .closed hrun rfl, .inr (.inl rfl)⟩
  | entered sid hd hno =>
      obtain ⟨phase, hrun, hphase⟩ := h
      obtain ⟨hnew, -, hactivity⟩ := (hwf.posted _ hd).unentered hno
      simp only [InPhase, hd, hnew.ud] at hphase
      subst hphase
      have hmade := run_concat_event (.makeID sid) hrun rfl
      refine .of_entered rfl rfl (run_concat_event .enterCallback hmade rfl)
        (enteredPhase_of_open ?_ ?_).symm
      · change c.activity ≠ .closing
        simp [hactivity]
      · exact hnew.opened
  -- From here on the id is known, and the phase is `enteredPhase` of the socket and the activity.
  | called hd hentered hactivity hcall =>
      exact h.call hwf hd hentered hactivity hcall.frame.2.1 hcall.mSocket_or
  | @applied _ d sid hd hud hactivity =>
      have hentered : d.mEventLoop = true := by
        by_contra hno
        simp [((hwf.posted d hd).unentered (Bool.not_eq_true _ ▸ hno)).1.ud] at hud
      refine h.log hwf hd hentered ?_
      intro sid' hsid'
      rw [hud, Option.some.injEq] at hsid'
      exact hsid' ▸ next_applied hactivity
  | @sent _ d caller packet callback hd hentered hactivity =>
      have hcall : (c.call d (d.sendInLoop packet callback)).Lives := by
        unfold DataSocket.sendInLoop
        rw [show ∀ d : DataSocket, d.runAfterFlush = (d.runAfterFlush.1, d.runAfterFlush.2) from
          fun _ => rfl, DataSocket.runAfterFlush_fst]
        exact h.call hwf hd hentered hactivity rfl (.inl rfl)
      exact hcall
  | handle hd hentered hactivity =>
      exact h.stay hwf hd hentered (by simp [hactivity]) hd (by simp) rfl rfl rfl
  | handled hactivity =>
      cases hd : c.socket with
      | none => simp [(hwf.gone hd).2] at hactivity
      | some d =>
          have hentered := (hwf.posted d hd).entered_of_ne_away (by simp [hactivity])
          exact h.stay hwf hd hentered (by simp [hactivity]) rfl (by simp) rfl rfl rfl
  | received hd hopen hactivity =>
      have hentered := (hwf.posted _ hd).entered_of_ne_away (by simp [hactivity])
      refine h.log hwf hd hentered ?_
      intro sid _
      rw [enteredPhase_of_open (by simp [hactivity]) hopen]
      rfl
  -- A closure of the socket proves that it has entered; running it is an event of every phase.
  | @flush _ d _ hd hactivity hprocs =>
      have hentered := (hwf.posted _ hd).entered_of_proc (by simp [hprocs])
      obtain ⟨sid, hsid, hrun⟩ := h.entered hwf hd hentered
      have hran := run_concat_event _ hrun (next_ran .flush (by simp [hactivity]) (by simp))
      have hnext : (if !d.mCanWrite || d.mSocket.isNone then Activity.away else .writing) ≠
          .closing := by
        split <;> simp
      refine .of_entered rfl hsid hran ?_
      simp only [enteredPhase, hactivity, hnext]
      rfl
  | @shutdown _ d _ hd hactivity hprocs =>
      have hentered := (hwf.posted _ hd).entered_of_proc (by simp [hprocs])
      obtain ⟨sid, hsid, hrun⟩ := h.entered hwf hd hentered
      have hran := run_concat_event _ hrun (next_ran .shutdown (by simp [hactivity]) (by simp))
      have hsame : d.procShutdownInLoop.mUD = d.mUD ∧ d.procShutdownInLoop.mSocket = d.mSocket := by
        unfold DataSocket.procShutdownInLoop
        split <;> exact ⟨rfl, rfl⟩
      refine .of_entered rfl (hsame.1.trans hsid) hran ?_
      simp only [enteredPhase, hsame.2]
      rfl
  -- The disconnect closure is the last one, so the socket is closed when it runs.
  | disConnect hd hactivity hprocs =>
      have hposted := hwf.posted _ hd
      rw [hactivity, hprocs] at hposted
      have hentered := hposted.entered_of_proc (by simp)
      obtain ⟨sid, hsid, hrun⟩ := h.entered hwf hd hentered
      rw [enteredPhase_of_closed (by simp [hactivity]) hposted.disConnect.1] at hrun
      have hran := run_concat_event (.ran .disConnect) hrun rfl
      exact .of_entered hd hsid (run_concat_event .disConnectCallback hran rfl) rfl
  -- `delete` ends the object, not the history: the phase stays `ended`.
  | deleted hactivity =>
      cases hd : c.socket with
      | none => simp [(hwf.gone hd).2] at hactivity
      | some d =>
          have hentered := (hwf.posted d hd).entered_of_ne_away (by simp [hactivity])
          obtain ⟨sid, -, hrun⟩ := h.entered hwf hd hentered
          simp only [enteredPhase, hactivity, if_true] at hrun
          exact ⟨_, hrun, .inr (.inr ⟨sid, rfl⟩)⟩
  -- Inside `quickFlush` the history stays as it is.
  | flushLeft hd hactivity _ =>
      exact h.flushing hwf hd (by simp [hactivity]) (by simp [hactivity]) hd (by simp) rfl rfl rfl
  | blocked hd hactivity _ =>
      exact h.flushing hwf hd (by simp [hactivity]) (by simp [hactivity]) rfl (by simp) rfl rfl rfl
  | accepted full hd hactivity _ =>
      exact h.flushing hwf hd (by simp [hactivity]) (by simp [hactivity]) hd (by simp) rfl rfl rfl
  | shrunk hd hactivity hlist _ =>
      exact h.flushing hwf hd (by simp [hactivity]) (by simp [hactivity]) rfl (by simp) rfl
        (by simp [DataSocket.shrinkFront, hlist]) (by simp [DataSocket.shrinkFront, hlist])
  | erased hd hactivity _ _ =>
      exact h.flushing hwf hd (by simp [hactivity]) (by simp [hactivity]) rfl (by simp) rfl rfl rfl
  | complete hd hactivity _ _ =>
      exact h.flushing hwf hd (by simp [hactivity]) (by simp [hactivity]) hd (by simp) rfl rfl rfl
  | completed hd hactivity =>
      exact h.flushing hwf hd (by simp [hactivity]) (by simp [hactivity]) rfl (by simp) rfl rfl rfl
  | writeMore hd hactivity _ =>
      exact h.flushing hwf hd (by simp [hactivity]) (by simp [hactivity]) hd (by simp) rfl rfl rfl
  | partly hd hactivity _ _ =>
      exact h.flushing hwf hd (by simp [hactivity]) (by simp [hactivity]) rfl (by simp) rfl rfl rfl

end Connection

end Brynet
