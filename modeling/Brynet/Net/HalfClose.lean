import Brynet.Net.ConnectionOutput
import Brynet.Net.Soundness

/-!
# Half-closing a connection

`postShutdown` is to close the write side of a session after everything that was
sent before.  It relies on the order of the after-loop procs: a flush closure that
was posted before the shutdown closure runs before it.  But a flush may be blocked
or cut short by the kernel and leave output behind that only `canSend` takes up
again, and `procShutdownInLoop` looks at nothing of this.

`InOrder` is what holds of a connection as long as neither happens while a
shutdown closure is the next to run: what was sent before `postShutdown` is on the
wire, or will be when the flush closure ahead or the flush that is going on is
through.  Most of what happens to a connection is `Calm` for this.
-/

namespace Brynet

open MachineInt Memory Transition

/-! ## Calls that a half-close does not see -/

namespace DataSocket

variable {d d' : DataSocket} {result : DataSocket × List AfterProc}

/-- Whether the socket can be written is as it was, and it was not opened again. -/
structure SameOutput (d d' : DataSocket) : Prop where
  opened : d.mSocket.isSome = true
  canWrite : d'.mCanWrite = d.mCanWrite
  epollOut : d'.epollOut = d.epollOut
  shutWr : d'.shutWr = d.shutWr

/-- The outcome of a member function is closed or can be written as before, and no
shutdown closure was posted. -/
structure Calm (d : DataSocket) (result : DataSocket × List AfterProc) : Prop where
  same : result.1.mSocket.isSome = true → SameOutput d result.1
  posted : .shutdown ∉ result.2

theorem Calm.refl (d : DataSocket) : Calm d (d, []) :=
  ⟨fun hopen => ⟨hopen, rfl, rfl, rfl⟩, by simp⟩

theorem Quiet.trans {d'' : DataSocket} (h : Quiet d d') (h' : Quiet d' d'') : Quiet d d'' := by
  obtain ⟨buffer, recvData, rfl⟩ := h
  obtain ⟨buffer', recvData', rfl⟩ := h'
  exact ⟨buffer', recvData', rfl⟩

theorem Quiet.calm (h : Quiet d d') : Calm d (d', []) := by
  obtain ⟨buffer, recvData, rfl⟩ := h
  exact ⟨fun hopen => ⟨hopen, rfl, rfl, rfl⟩, by simp⟩

theorem shutdown_not_mem_runAfterFlush (d : DataSocket) : .shutdown ∉ d.runAfterFlush.2 := by
  unfold runAfterFlush
  split <;> simp

theorem calm_sendInLoop (d : DataSocket) (packet : List UInt8) (callback : Bool) :
    Calm d (d.sendInLoop packet callback) := by
  refine ⟨?_, shutdown_not_mem_runAfterFlush _⟩
  rw [sendInLoop, runAfterFlush_fst]
  exact fun hopen => ⟨hopen, rfl, rfl, rfl⟩

theorem calm_onClose (d : DataSocket) : Calm d d.onClose := by
  unfold onClose
  split
  · exact .refl d
  · refine ⟨fun hopen => ?_, by simp⟩
    unfold closeSocket at hopen
    split at hopen
    · cases hopen
    · contradiction

theorem calm_procCloseInLoop (d : DataSocket) : Calm d d.procCloseInLoop := by
  unfold procCloseInLoop
  split
  · exact .refl d
  · exact calm_onClose d

theorem calm_shrinkFront (d : DataSocket) (tmpLen : ℕ) : Calm d (d.shrinkFront tmpLen, []) := by
  unfold shrinkFront
  split
  · exact .refl d
  · exact ⟨fun hopen => ⟨hopen, rfl, rfl, rfl⟩, by simp⟩

theorem calm_eraseFront (d : DataSocket) : Calm d (d.eraseFront, []) :=
  ⟨fun hopen => ⟨hopen, rfl, rfl, rfl⟩, by simp⟩

end DataSocket

/-! ## What was asked for -/

/-- The shutdown closures ahead of the first flush closure were posted when the
bytes on the wire were already all there was to send. -/
def Settled (wire : List UInt8) : List AfterProc → List (List UInt8) → Prop
  | [], _ => True
  | .flush :: _, _ => True
  | .disConnect :: procs, asked => Settled wire procs asked
  | .shutdown :: procs, asked =>
      ∃ before later, asked = before :: later ∧ before <+: wire ∧ Settled wire procs later

section

variable {wire : List UInt8} {procs posted : List AfterProc} {asked : List (List UInt8)}

theorem Settled.mono {wire' : List UInt8} (h : Settled wire procs asked) (hwire : wire <+: wire') :
    Settled wire' procs asked := by
  induction procs generalizing asked with
  | nil => trivial
  | cons proc procs ih =>
      cases proc with
      | flush => trivial
      | disConnect => exact ih h
      | shutdown =>
          obtain ⟨before, later, rfl, hbefore, hlater⟩ := h
          exact ⟨before, later, rfl, hbefore.trans hwire, ih hlater⟩

/-- Closures of other kinds are posted behind. -/
theorem Settled.append (h : Settled wire procs asked) (hposted : .shutdown ∉ posted) :
    Settled wire (procs ++ posted) asked := by
  induction procs generalizing asked with
  | nil =>
      induction posted with
      | nil => trivial
      | cons proc posted ih =>
          rw [List.mem_cons, not_or] at hposted
          cases proc with
          | flush => trivial
          | disConnect => exact ih hposted.2
          | shutdown => exact absurd rfl hposted.1
  | cons proc procs ih =>
      cases proc with
      | flush => trivial
      | disConnect => exact ih h
      | shutdown =>
          obtain ⟨before, later, rfl, hbefore, hlater⟩ := h
          exact ⟨before, later, rfl, hbefore, ih hlater⟩

/-- A shutdown closure is posted, behind a flush closure or with nothing to send. -/
theorem Settled.ask (h : Settled wire procs asked) {before : List UInt8}
    (hbefore : .flush ∈ procs ∨ before <+: wire) (hlength : asked.length = procs.count .shutdown) :
    Settled wire (procs ++ [.shutdown]) (asked ++ [before]) := by
  induction procs generalizing asked with
  | nil =>
      have hnil : asked = [] := List.length_eq_zero_iff.mp hlength
      subst hnil
      exact ⟨before, [], rfl, hbefore.resolve_left (by simp), trivial⟩
  | cons proc procs ih =>
      cases proc with
      | flush => trivial
      | disConnect => exact ih h (by simpa using hbefore) (by simpa using hlength)
      | shutdown =>
          obtain ⟨first, later, rfl, hfirst, hlater⟩ := h
          exact ⟨first, later ++ [before], rfl, hfirst,
            ih hlater (by simpa using hbefore) (by simpa using hlength)⟩

/-- Everything that was asked for is on the wire. -/
theorem Settled.of_all (hall : ∀ before ∈ asked, before <+: wire)
    (hlength : asked.length = procs.count .shutdown) : Settled wire procs asked := by
  induction procs generalizing asked with
  | nil => trivial
  | cons proc procs ih =>
      cases proc with
      | flush => trivial
      | disConnect => exact ih hall (by simpa using hlength)
      | shutdown =>
          cases asked with
          | nil => simp at hlength
          | cons before later =>
              rw [List.forall_mem_cons] at hall
              exact ⟨before, later, rfl, hall.1, ih hall.2 (by simpa using hlength)⟩

end

namespace Connection

variable {c c' : Connection} {d : DataSocket} {asked : List (List UInt8)}
  {calls calls' : List ChannelCall}

/-- The bytes of all packets that were put into the send list. -/
def queued (c : Connection) : List UInt8 := c.delivered.flatMap Prod.snd

/-- An open socket whose half-closes are in order.  While it can be written and no
flush is going on, what its next shutdown closures are to wait for is on the wire. -/
structure Orderly (d : DataSocket) (c : Connection) (asked : List (List UInt8))
    (calls : List ChannelCall) : Prop where
  writable : d.mCanWrite = true → d.epollOut = false
  flushing : c.activity.isFlushing = true → d.mCanWrite = true
  shut : d.shutWr = true → d.mCanWrite = false ∧ d.epollOut = false
  awaited : .canSend ∈ calls → d.epollOut = true
  settled : d.mCanWrite = true → c.activity.isFlushing = false → Settled c.wire c.procs asked

/-- The half-closes of a connection are in order.  `asked` is what had been sent
when its queued shutdown closures were posted, and `calls` are the calls that the
loop is about to make for its events. -/
structure InOrder (c : Connection) (asked : List (List UInt8)) (calls : List ChannelCall) :
    Prop where
  count : asked.length = c.procs.count .shutdown
  before : ∀ bytes ∈ asked, bytes <+: c.queued
  once : calls.count .canSend ≤ 1
  opened : ∀ d, c.socket = some d → d.mSocket.isSome = true → Orderly d c asked calls

/-- A socket that can be written was not shut down. -/
theorem Orderly.not_shut (h : Orderly d c asked calls) (hcan : d.mCanWrite = true) :
    d.shutWr = false := by
  by_contra hshut
  rw [Bool.not_eq_false] at hshut
  rw [(h.shut hshut).1] at hcan
  cases hcan

/-- Nothing happens that matters to a half-close. -/
structure Calm (c c' : Connection) : Prop where
  procs : ∃ posted, c'.procs = c.procs ++ posted ∧ .shutdown ∉ posted
  queued : c.queued <+: c'.queued
  wire : c.wire <+: c'.wire
  opened : ∀ d', c'.socket = some d' → d'.mSocket.isSome = true →
    c'.activity.isFlushing = c.activity.isFlushing ∧
      ∃ d, c.socket = some d ∧ d.SameOutput d'

/-- Only the history differs. -/
theorem Calm.of_eq (hsocket : c'.socket = c.socket) (hprocs : c'.procs = c.procs)
    (hactivity : c'.activity = c.activity) (hdelivered : c'.delivered = c.delivered)
    (hwire : c'.wire = c.wire) : Calm c c' where
  procs := ⟨[], by simp [hprocs]⟩
  queued := by simp [Connection.queued, hdelivered]
  wire := by simp [hwire]
  opened d hd hopen := ⟨by rw [hactivity], d, hsocket ▸ hd, hopen, rfl, rfl, rfl⟩

theorem Calm.refl (c : Connection) : Calm c c := .of_eq rfl rfl rfl rfl rfl

theorem Calm.trans {c'' : Connection} (h : Calm c c') (h' : Calm c' c'') : Calm c c'' := by
  obtain ⟨posted, hprocs, hposted⟩ := h.procs
  obtain ⟨posted', hprocs', hposted'⟩ := h'.procs
  refine ⟨⟨posted ++ posted', ?_, ?_⟩, h.queued.trans h'.queued, h.wire.trans h'.wire, ?_⟩
  · rw [hprocs', hprocs, List.append_assoc]
  · rw [List.mem_append, not_or]
    exact ⟨hposted, hposted'⟩
  · intro d'' hd'' hopen
    obtain ⟨hflushing', d', hd', hsame'⟩ := h'.opened d'' hd'' hopen
    obtain ⟨hflushing, d, hd, hsame⟩ := h.opened d' hd' hsame'.opened
    exact ⟨hflushing'.trans hflushing, d, hd, hsame.opened, hsame'.canWrite.trans hsame.canWrite,
      hsame'.epollOut.trans hsame.epollOut, hsame'.shutWr.trans hsame.shutWr⟩

theorem inOrder_absent : absent.InOrder [] [] :=
  ⟨rfl, by simp, by simp, by simp [absent]⟩

theorem InOrder.calm (h : c.InOrder asked calls) (hcalm : Calm c c')
    (hcalls : calls'.Sublist calls) : c'.InOrder asked calls' := by
  obtain ⟨posted, hprocs, hposted⟩ := hcalm.procs
  refine ⟨?_, ?_, (hcalls.count_le _).trans h.once, ?_⟩
  · rw [hprocs, List.count_append, List.count_eq_zero_of_not_mem hposted]
    exact h.count
  · exact fun bytes hbytes => (h.before bytes hbytes).trans hcalm.queued
  · intro d' hd' hopen
    obtain ⟨hflushing, d, hd, hsame⟩ := hcalm.opened d' hd' hopen
    have horderly := h.opened d hd hsame.opened
    refine ⟨?_, ?_, ?_, ?_, ?_⟩
    · rw [hsame.canWrite, hsame.epollOut]
      exact horderly.writable
    · rw [hflushing, hsame.canWrite]
      exact horderly.flushing
    · rw [hsame.shutWr, hsame.canWrite, hsame.epollOut]
      exact horderly.shut
    · rw [hsame.epollOut]
      exact fun hmem => horderly.awaited (hcalls.subset hmem)
    · rw [hsame.canWrite, hflushing, hprocs]
      exact fun hcan hidle => ((horderly.settled hcan hidle).mono hcalm.wire).append hposted

/-! ## Steps that a half-close sees -/

theorem InOrder.created (h : absent.InOrder asked calls) (hd : d.epollOut = false)
    (hshut : d.shutWr = false) (hcalls : .canSend ∉ calls) :
    InOrder { absent with socket := some d } asked calls where
  count := h.count
  before := h.before
  once := h.once
  opened d' hd' _ := by
    cases hd'
    exact ⟨fun _ => hd, by simp [absent, Activity.isFlushing], by simp [hshut],
      fun hmem => absurd hmem hcalls, fun _ _ => trivial⟩

/-- What is sent when `postShutdown` is called is on the wire, or a flush closure is
queued, or the socket cannot be written. -/
theorem InOrder.ask (h : c.InOrder asked calls) (hwf : c.Wf) (hflushes : c.Flushes)
    (hstreams : c.Streams) (hd : c.socket = some d) (hopen : d.mSocket.isSome = true) :
    InOrder (c.call d d.postShutdown) (asked ++ [c.queued]) calls := by
  have hposted : d.postShutdown = (d, [.shutdown]) := by
    rw [DataSocket.postShutdown, if_pos hopen]
  have horderly := h.opened d hd hopen
  rw [hposted]
  refine ⟨?_, ?_, h.once, ?_⟩
  · simp [Connection.call, h.count]
  · intro bytes hbytes
    rw [List.mem_append, List.mem_singleton] at hbytes
    rcases hbytes with hold | rfl
    · exact h.before bytes hold
    · exact List.prefix_refl _
  · intro d' hd' _
    cases hd'
    refine ⟨horderly.writable, horderly.flushing, horderly.shut, horderly.awaited, ?_⟩
    intro hcan hidle
    refine (horderly.settled hcan hidle).ask ?_ h.count
    by_cases hlist : d.mSendList = []
    · right
      -- Nothing waits and nothing is being erased, so all was accepted.
      have hbytes := (hstreams.live d hd).bytes
      rw [DataSocket.unsent, hlist] at hbytes
      rw [queued, ← hbytes]
      simp
    · left
      have hawake := hflushes d hd hopen (horderly.not_shut hcan)
      have hpost : d.mIsPostFlush = true := by
        rcases hawake.waiting hlist hidle with hpost | hcannot
        · exact hpost
        · rw [hcan] at hcannot
          cases hcannot
      rw [← List.count_pos_iff, (hwf.posted d hd).flushes, hpost]
      exact Nat.one_pos

/-- `canSend` lets the socket be written again.  No shutdown closure is the next
one, so there is none at all or a flush closure is ahead of it. -/
theorem InOrder.canSend (h : c.InOrder asked (.canSend :: calls)) (hwf : c.Wf)
    (hd : c.socket = some d)
    (hnext : d.mSocket.isSome = true → c.procs.head? ≠ some .shutdown) :
    InOrder (c.call d d.canSend) asked calls := by
  have honce : calls.count .canSend = 0 := by
    have honce := h.once
    rw [List.count_cons_self] at honce
    omega
  have hposted : .shutdown ∉ d.canSend.2 := DataSocket.shutdown_not_mem_runAfterFlush _
  refine ⟨?_, h.before, by omega, ?_⟩
  · simp only [Connection.call, List.count_append, List.count_eq_zero_of_not_mem hposted]
    exact h.count
  · intro d' hd' hopen'
    cases hd'
    have hopen : d.mSocket.isSome = true := by
      rw [DataSocket.canSend, DataSocket.runAfterFlush_fst, DataSocket.removeCheckWrite] at hopen'
      split at hopen'
      · assumption
      · exact hopen'
    have horderly := h.opened d hd hopen
    -- The event was awaited, which it is not once the output is shut.
    have hshut : d.shutWr = false := by
      by_contra hshut
      rw [Bool.not_eq_false] at hshut
      have harmed := horderly.awaited List.mem_cons_self
      rw [(horderly.shut hshut).2] at harmed
      cases harmed
    have hflags : d.canSend.1.epollOut = false ∧ d.canSend.1.shutWr = false ∧
        d.canSend.1.mCanWrite = true := by
      rw [DataSocket.canSend, DataSocket.runAfterFlush_fst, DataSocket.removeCheckWrite,
        if_pos hopen]
      exact ⟨rfl, hshut, rfl⟩
    refine ⟨fun _ => hflags.1, fun _ => hflags.2.2, by simp [hflags.2.1], ?_, ?_⟩
    · exact fun hmem => absurd hmem (List.count_eq_zero.mp honce)
    · intro _ _
      refine Settled.append ?_ hposted
      cases hprocs : c.procs with
      | nil => trivial
      | cons proc procs =>
          have hother := hnext hopen
          have hno := ((hwf.posted d hd).opened hopen).1
          rw [hprocs] at hother hno
          cases proc with
          | flush => trivial
          | shutdown => exact absurd rfl hother
          | disConnect => exact absurd List.mem_cons_self hno

/-- The kernel does not take what it was offered, or not all of it. -/
theorem InOrder.blocked (h : c.InOrder asked calls) (hd : c.socket = some d)
    (hflushing : c.activity.isFlushing = true) {next : Activity} (hnext : next.isFlushing = false) :
    InOrder { c.call d (d.blockWrite, []) with activity := next } asked calls := by
  refine ⟨?_, h.before, h.once, ?_⟩
  · simpa [Connection.call] using h.count
  · intro d' hd' hopen
    cases hd'
    have horderly := h.opened d hd hopen
    have hshut : d.blockWrite.shutWr = false :=
      horderly.not_shut (horderly.flushing hflushing)
    exact ⟨by simp [DataSocket.blockWrite, DataSocket.checkWrite], by simp [hnext],
      by simp [hshut], fun _ => rfl, by simp [DataSocket.blockWrite, DataSocket.checkWrite]⟩

/-- A flush that has sent everything. -/
theorem InOrder.flushed (h : c.InOrder asked calls) (hstreams : c.Streams) (hd : c.socket = some d)
    (hactivity : c.activity = .writing) (hlist : d.mSendList = []) :
    InOrder { c with activity := .away } asked calls := by
  refine ⟨h.count, h.before, h.once, ?_⟩
  intro d' hd' hopen
  rw [hd, Option.some.injEq] at hd'
  subst hd'
  have horderly := h.opened d hd hopen
  refine ⟨horderly.writable, by simp [Activity.isFlushing], horderly.shut, horderly.awaited, ?_⟩
  intro _ _
  refine Settled.of_all (fun bytes hbytes => ?_) h.count
  have hbefore := h.before bytes hbytes
  have hall := (hstreams.live d hd).bytes
  rw [DataSocket.unsent, hlist, hactivity, acceptedLen] at hall
  rw [queued, ← hall] at hbefore
  simpa using hbefore

/-- A closure that is not the shutdown closure is taken out, and the socket is not
both open and writable with nobody flushing. -/
theorem InOrder.pop (h : c.InOrder asked calls) {proc : AfterProc} {rest : List AfterProc}
    (hprocs : c.procs = proc :: rest) (hproc : proc ≠ .shutdown)
    (hsame : c'.procs = rest ∧ c'.delivered = c.delivered)
    (hopened : ∀ d', c'.socket = some d' → d'.mSocket.isSome = true →
      (d'.mCanWrite = true ↔ c'.activity.isFlushing = true) ∧
        ∃ d, c.socket = some d ∧ d.SameOutput d') : c'.InOrder asked calls := by
  obtain ⟨hrest, hdelivered⟩ := hsame
  refine ⟨?_, ?_, h.once, ?_⟩
  · rw [h.count, hprocs, hrest, List.count_cons_of_ne hproc]
  · rw [queued, hdelivered]
    exact h.before
  · intro d' hd' hopen
    obtain ⟨hiff, d, hd, hsame⟩ := hopened d' hd' hopen
    have horderly := h.opened d hd hsame.opened
    refine ⟨?_, hiff.mpr, ?_, ?_, ?_⟩
    · rw [hsame.canWrite, hsame.epollOut]
      exact horderly.writable
    · rw [hsame.shutWr, hsame.canWrite, hsame.epollOut]
      exact horderly.shut
    · rw [hsame.epollOut]
      exact horderly.awaited
    · intro hcan hidle
      rw [hiff.mp hcan] at hidle
      cases hidle

/-- The shutdown closure runs on a socket that is writable or has nothing to send:
what was sent before `postShutdown` is on the wire. -/
theorem InOrder.issued (h : c.InOrder asked calls) (hstreams : c.Streams) {rest : List AfterProc}
    (hprocs : c.procs = .shutdown :: rest) (hactivity : c.activity = .away)
    (hd : c.socket = some d) (hopen : d.mSocket.isSome = true)
    (hready : d.mCanWrite = true ∨ d.mSendList = []) :
    ∃ before later, asked = before :: later ∧ before <+: c.wire := by
  rcases hready with hcan | hlist
  · have hsettled := (h.opened d hd hopen).settled hcan (by simp [hactivity, Activity.isFlushing])
    rw [hprocs] at hsettled
    obtain ⟨before, later, hasked, hbefore, -⟩ := hsettled
    exact ⟨before, later, hasked, hbefore⟩
  · have hcount := h.count
    rw [hprocs, List.count_cons_self] at hcount
    obtain ⟨before, later, rfl⟩ := List.exists_cons_of_length_eq_add_one hcount
    refine ⟨before, later, rfl, ?_⟩
    have hbefore := h.before before List.mem_cons_self
    have hall := (hstreams.live d hd).bytes
    rw [DataSocket.unsent, hlist, hactivity, acceptedLen] at hall
    rw [queued, ← hall] at hbefore
    simpa using hbefore

/-- Nothing can be written after the shutdown closure, and the socket is not armed. -/
theorem InOrder.shutdown (h : c.InOrder asked calls) {rest : List AfterProc}
    (hprocs : c.procs = .shutdown :: rest) (hd : c.socket = some d)
    (hready : d.mSocket.isSome = true → d.mCanWrite = true ∨ d.epollOut = false)
    (hsame : c'.procs = rest ∧ c'.delivered = c.delivered)
    (hsocket : c'.socket = some d.procShutdownInLoop) (haway : c'.activity = .away) :
    c'.InOrder asked.tail calls := by
  obtain ⟨hrest, hdelivered⟩ := hsame
  refine ⟨?_, ?_, h.once, ?_⟩
  · rw [List.length_tail, h.count, hprocs, hrest, List.count_cons_self]
    rfl
  · intro bytes hbytes
    rw [queued, hdelivered]
    exact h.before bytes (List.mem_of_mem_tail hbytes)
  · intro d' hd' hopen'
    rw [hsocket, Option.some.injEq] at hd'
    subst hd'
    have hopen : d.mSocket.isSome = true := by
      unfold DataSocket.procShutdownInLoop at hopen'
      split at hopen' <;> assumption
    have horderly := h.opened d hd hopen
    have harmed : d.epollOut = false := by
      rcases hready hopen with hcan | harmed
      · exact horderly.writable hcan
      · exact harmed
    rw [DataSocket.procShutdownInLoop, if_pos hopen]
    refine ⟨by simp, by simp [haway, Activity.isFlushing], fun _ => ⟨rfl, harmed⟩,
      horderly.awaited, by simp⟩

end Connection

end Brynet
