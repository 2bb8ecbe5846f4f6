import Mathlib.Logic.Relation
import Brynet.Net.LifeCycle

/-!
# One connection of the IO loop

Everything the loop knows about one socket: the object itself, its closures that
are queued, what the loop thread is doing with it, its history, the packets put
into its send list and the bytes the kernel has accepted.  `Connection.Step` is
what may happen to a connection while the rest of the loop does whatever it
likes.  The guarantees for one session are proved here, over these steps; that
every step of the loop is made of such steps is proved in `Brynet.Net.Simulation`.

`Wf` ties the closures that are queued to the flags of the object.  Of its parts
(`Posted`) two carry the results: while `mIsPostFlush` is set exactly one flush closure
is queued, and the disconnect closure is behind all others from the moment the socket
is closed.  The second is why the object may be deleted: when the disconnect closure
runs no closure is left that could use it (`Posted.disConnect`).
-/

namespace Brynet

open MachineInt Memory Transition

/-- What the loop thread is doing with a socket: handling an event, before a
`writev`, in the erase loop, in a complete callback of the erase loop, or in the
disconnect closure. -/
inductive Activity
  | away
  | handling
  | writing
  | erasing (tmpLen : ℕ) (full : Bool)
  | completing (tmpLen : ℕ) (full : Bool)
  | closing
deriving Repr, DecidableEq

/-- Whether the loop thread is in `quickFlush`. -/
def Activity.isFlushing : Activity → Bool
  | writing | erasing .. | completing .. => true
  | away | handling | closing => false

structure Connection where
  socket : Option DataSocket
  procs : List AfterProc
  activity : Activity
  history : List SocketEvent
  delivered : List (Caller × List UInt8)
  wire : List UInt8

/-- The member functions of an entered socket that other parts of the loop call.
The fields that `quiet` sets play no role in sending and closing. -/
inductive DataSocket.Call (d : DataSocket) : DataSocket × List AfterProc → Prop
  | quiet (buffer : Buffer) (recvData : Bool) (checkTime : ℕ) (timer : Option ℕ) :
      Call d ({ d with
        mRecvBuffer := buffer, mRecvData := recvData, mCheckTime := checkTime,
        mTimer := timer }, [])
  | canSend : Call d d.canSend
  | onClose : Call d d.onClose
  | postShutdown : Call d d.postShutdown

namespace Connection

/-- The connection of an object that does not exist yet. -/
def absent : Connection := ⟨none, [], .away, [], [], []⟩

/-- The outcome of a member function of a socket that was `d`. -/
def call (c : Connection) (d : DataSocket) (result : DataSocket × List AfterProc) : Connection :=
  { c with
    socket := some result.1
    procs := c.procs ++ result.2
    history := c.history ++
      if d.mSocket.isSome && result.1.mSocket.isNone then [.closed] else [] }

def log (c : Connection) (event : SocketEvent) : Connection :=
  { c with history := c.history ++ [event] }

/-- A new object. -/
structure IsNew (d : DataSocket) : Prop where
  opened : d.mSocket.isSome = true
  final : d.mIsPostFinalClose = false
  canWrite : d.mCanWrite = true
  eventLoop : d.mEventLoop = false
  postFlush : d.mIsPostFlush = false
  sendList : d.mSendList = []
  ud : d.mUD = none
  timer : d.mTimer = none

inductive Step : Connection → Connection → Prop
  | created {d : DataSocket} : IsNew d → Step absent { absent with socket := some d }
  | refused {c : Connection} {d : DataSocket} :
      c.socket = some d → d.mEventLoop = false →
      Step c { c.log .closed with socket := none }
  | entered {c : Connection} {d : DataSocket} (sid : SessionId) :
      c.socket = some d → d.mEventLoop = false →
      Step c { (c.log (.makeID sid)).log .enterCallback with
        socket := some { d with mEventLoop := true, mUD := some sid, mDataCallback := true } }
  | called {c : Connection} {d : DataSocket} {result : DataSocket × List AfterProc} :
      c.socket = some d → d.mEventLoop = true → c.activity ≠ .closing → d.Call result →
      Step c (c.call d result)
  | applied {c : Connection} {d : DataSocket} {sid : SessionId} :
      c.socket = some d → d.mUD = some sid → c.activity ≠ .closing →
      Step c (c.log (.applied sid))
  | sent {c : Connection} {d : DataSocket} (caller : Caller) (packet : List UInt8)
      (callback : Bool) :
      c.socket = some d → d.mEventLoop = true → c.activity ≠ .closing →
      Step c { c.call d (d.sendInLoop packet callback) with
        delivered := c.delivered ++ [(caller, packet)] }
  | handle {c : Connection} {d : DataSocket} :
      c.socket = some d → d.mEventLoop = true → c.activity = .away →
      Step c { c with activity := .handling }
  | handled {c : Connection} :
      c.activity = .handling → Step c { c with activity := .away }
  | received {c : Connection} {d : DataSocket} :
      c.socket = some d → d.mSocket.isSome = true → c.activity = .handling →
      Step c (c.log .dataCallback)
  | flush {c : Connection} {d : DataSocket} {rest : List AfterProc} :
      c.socket = some d → c.activity = .away → c.procs = .flush :: rest →
      Step c { c.log (.ran .flush) with
        socket := some { d with mIsPostFlush := false }
        procs := rest
        activity := if !d.mCanWrite || d.mSocket.isNone then .away else .writing }
  | shutdown {c : Connection} {d : DataSocket} {rest : List AfterProc} :
      c.socket = some d → c.activity = .away → c.procs = .shutdown :: rest →
      Step c { c.log (.ran .shutdown) with
        socket := some d.procShutdownInLoop
        procs := rest }
  | disConnect {c : Connection} {d : DataSocket} {rest : List AfterProc} :
      c.socket = some d → c.activity = .away → c.procs = .disConnect :: rest →
      Step c { (c.log (.ran .disConnect)).log .disConnectCallback with
        procs := rest
        activity := .closing }
  | deleted {c : Connection} :
      c.activity = .closing → Step c { c with socket := none, activity := .away }
  | flushLeft {c : Connection} {d : DataSocket} :
      c.socket = some d → c.activity = .writing → d.mSendList = [] ∨ d.mSocket = none →
      Step c { c with activity := .away }
  | blocked {c : Connection} {d : DataSocket} :
      c.socket = some d → c.activity = .writing → d.mSocket.isSome = true →
      Step c { c with socket := some d.blockWrite, activity := .away }
  | accepted {c : Connection} {d : DataSocket} {count : ℕ} (full : Bool) :
      c.socket = some d → c.activity = .writing → count ≤ d.offered.length →
      Step c { c with
        activity := .erasing count full
        wire := c.wire ++ d.offered.take count }
  | shrunk {c : Connection} {d : DataSocket} {packet : PendingPacket}
      {rest : List PendingPacket} {tmpLen : ℕ} {full : Bool} :
      c.socket = some d → c.activity = .erasing tmpLen full → d.mSendList = packet :: rest →
      tmpLen < packet.left →
      Step c { c with socket := some (d.shrinkFront tmpLen), activity := .erasing 0 full }
  | erased {c : Connection} {d : DataSocket} {packet : PendingPacket}
      {rest : List PendingPacket} {tmpLen : ℕ} {full : Bool} :
      c.socket = some d → c.activity = .erasing tmpLen full → d.mSendList = packet :: rest →
      packet.left ≤ tmpLen →
      Step c { c with
        socket := some d.eraseFront, activity := .erasing (tmpLen - packet.left) full }
  | complete {c : Connection} {d : DataSocket} {packet : PendingPacket}
      {rest : List PendingPacket} {tmpLen : ℕ} {full : Bool} :
      c.socket = some d → c.activity = .erasing tmpLen full → d.mSendList = packet :: rest →
      packet.left ≤ tmpLen →
      Step c { c with activity := .completing (tmpLen - packet.left) full }
  | completed {c : Connection} {d : DataSocket} {tmpLen : ℕ} {full : Bool} :
      c.socket = some d → c.activity = .completing tmpLen full →
      Step c { c with socket := some d.eraseFront, activity := .erasing tmpLen full }
  | writeMore {c : Connection} {d : DataSocket} {tmpLen : ℕ} :
      c.socket = some d → c.activity = .erasing tmpLen true → d.mSendList = [] ∨ tmpLen = 0 →
      Step c { c with activity := .writing }
  | partly {c : Connection} {d : DataSocket} {tmpLen : ℕ} :
      c.socket = some d → c.activity = .erasing tmpLen false → d.mSendList = [] ∨ tmpLen = 0 →
      d.mSocket.isSome = true →
      Step c { c with socket := some d.blockWrite, activity := .away }

abbrev Steps : Connection → Connection → Prop := Relation.ReflTransGen Step

/-- A property that every step keeps holds after any number of steps. -/
theorem Steps.preserve {I : Connection → Prop}
    (hstep : ∀ c c', I c → Step c c' → I c') {c c' : Connection} (h : Steps c c') (hc : I c) :
    I c' := by
  induction h with
  | refl => exact hc
  | tail _ hlast ih => exact hstep _ _ ih hlast

end Connection

namespace DataSocket

variable {d : DataSocket} {result : DataSocket × List AfterProc}

/-! ## What the member functions leave alone -/

theorem runAfterFlush_fst (d : DataSocket) :
    d.runAfterFlush.1 = { d with mIsPostFlush := d.runAfterFlush.1.mIsPostFlush } := by
  unfold runAfterFlush
  split <;> rfl

/-- The fields that none of the calls sets. -/
theorem Call.frame (h : d.Call result) :
    result.1.mEventLoop = d.mEventLoop ∧ result.1.mUD = d.mUD ∧
      result.1.mSendList = d.mSendList ∧ result.1.shutWr = d.shutWr := by
  cases h with
  | quiet => exact ⟨rfl, rfl, rfl, rfl⟩
  | canSend =>
      unfold DataSocket.canSend removeCheckWrite
      rw [runAfterFlush_fst]
      split <;> exact ⟨rfl, rfl, rfl, rfl⟩
  | onClose =>
      unfold DataSocket.onClose closeSocket
      split
      · exact ⟨rfl, rfl, rfl, rfl⟩
      · split <;> exact ⟨rfl, rfl, rfl, rfl⟩
  | postShutdown =>
      unfold DataSocket.postShutdown
      split <;> exact ⟨rfl, rfl, rfl, rfl⟩

/-- A call leaves `mSocket` alone or resets it. -/
theorem Call.mSocket_or (h : d.Call result) :
    result.1.mSocket = d.mSocket ∨ result.1.mSocket = none := by
  cases h with
  | quiet => exact .inl rfl
  | canSend =>
      unfold DataSocket.canSend removeCheckWrite
      rw [runAfterFlush_fst]
      split <;> exact .inl rfl
  | onClose =>
      unfold DataSocket.onClose closeSocket
      split
      · exact .inl rfl
      · split
        · exact .inr rfl
        · exact .inl rfl
  | postShutdown =>
      unfold DataSocket.postShutdown
      split <;> exact .inl rfl

end DataSocket

namespace Connection

variable {c c' : Connection} {d : DataSocket} {procs : List AfterProc} {activity : Activity}
  {result : DataSocket × List AfterProc}

/-! ## The closures of a connection -/

/-- The closures of `d` that are queued fit its flags: one flush closure while
`mIsPostFlush` is set, and the disconnect closure behind all others from the
moment the socket is closed. -/
structure Posted (d : DataSocket) (procs : List AfterProc) (activity : Activity) : Prop where
  unentered : d.mEventLoop = false → IsNew d ∧ procs = [] ∧ activity = .away
  entered : d.mEventLoop = true → d.mUD.isSome = true
  final : d.mIsPostFinalClose = d.mSocket.isNone
  flushes : procs.count .flush = if d.mIsPostFlush then 1 else 0
  opened : d.mSocket.isSome = true → .disConnect ∉ procs ∧ activity ≠ .closing
  closed : d.mSocket = none →
    activity = .closing ∧ procs = [] ∨
      activity ≠ .closing ∧ ∃ others, .disConnect ∉ others ∧ procs = others ++ [.disConnect]

/-- An object that is gone has left nothing behind. -/
structure Wf (c : Connection) : Prop where
  gone : c.socket = none → c.procs = [] ∧ c.activity = .away
  posted : ∀ d, c.socket = some d → Posted d c.procs c.activity

theorem wf_absent : absent.Wf := ⟨fun _ => ⟨rfl, rfl⟩, by simp [absent]⟩

theorem Posted.of_isNew (h : IsNew d) : Posted d [] .away where
  unentered _ := ⟨h, rfl, rfl⟩
  entered := by simp [h.eventLoop]
  final := by
    have hopened := h.opened
    rw [h.final]
    cases hs : d.mSocket with
    | none => simp [hs] at hopened
    | some _ => rfl
  flushes := by simp [h.postFlush]
  opened _ := ⟨by simp, by simp⟩
  closed hnone := by simpa [hnone] using h.opened

/-- Posting a closure other than the disconnect closure, on an open socket. -/
theorem Posted.runAfterFlush (h : Posted d procs activity) (hentered : d.mEventLoop = true) :
    Posted d.runAfterFlush.1 (procs ++ d.runAfterFlush.2) activity := by
  unfold DataSocket.runAfterFlush
  split
  · rename_i hpost
    simp only [Bool.and_eq_true, Bool.not_eq_true'] at hpost
    obtain ⟨⟨hidle, -⟩, hopen⟩ := hpost
    obtain ⟨hno, hactivity⟩ := h.opened hopen
    refine ⟨by simp [hentered], h.entered, h.final, ?_, ?_, ?_⟩
    · rw [List.count_append, h.flushes, hidle]
      rfl
    · intro _
      exact ⟨by simp [hno], hactivity⟩
    · intro hnone
      have hclosed : d.mSocket = none := hnone
      simp [hclosed] at hopen
  · simpa using h

/-- Fields that `Posted` does not look at may change. -/
theorem Posted.of_eq {d' : DataSocket} (h : Posted d procs activity)
    (hentered : d.mEventLoop = true) (heventLoop : d'.mEventLoop = d.mEventLoop)
    (hud : d'.mUD = d.mUD) (hfinal : d'.mIsPostFinalClose = d.mIsPostFinalClose)
    (hsocket : d'.mSocket = d.mSocket) (hpostFlush : d'.mIsPostFlush = d.mIsPostFlush) :
    Posted d' procs activity where
  unentered hno := by simp [heventLoop, hentered] at hno
  entered _ := by rw [hud]; exact h.entered hentered
  final := by rw [hfinal, hsocket]; exact h.final
  flushes := by rw [hpostFlush]; exact h.flushes
  opened := by rw [hsocket]; exact h.opened
  closed := by rw [hsocket]; exact h.closed

theorem Posted.onClose (h : Posted d procs activity) (hentered : d.mEventLoop = true) :
    Posted d.onClose.1 (procs ++ d.onClose.2) activity := by
  unfold DataSocket.onClose
  split
  · simpa using h
  · rename_i hopen
    rw [h.final, Option.isNone_iff_eq_none, ← ne_eq, Option.ne_none_iff_isSome] at hopen
    obtain ⟨hno, hactivity⟩ := h.opened hopen
    simp only [DataSocket.closeSocket, hopen, if_true]
    refine ⟨by simp [hentered], fun _ => h.entered hentered, rfl, ?_, by simp, ?_⟩
    · rw [List.count_append, h.flushes]
      rfl
    -- What was queued stays in front of the disconnect closure.
    · exact fun _ => .inr ⟨hactivity, procs, hno, rfl⟩

theorem Posted.postShutdown (h : Posted d procs activity) (hentered : d.mEventLoop = true) :
    Posted d.postShutdown.1 (procs ++ d.postShutdown.2) activity := by
  unfold DataSocket.postShutdown
  split
  · rename_i hopen
    obtain ⟨hno, hactivity⟩ := h.opened hopen
    refine ⟨by simp [hentered], h.entered, h.final, ?_, ?_, ?_⟩
    · rw [List.count_append, h.flushes]
      rfl
    · exact fun _ => ⟨by simp [hno], hactivity⟩
    · intro hnone
      have hclosed : d.mSocket = none := hnone
      simp [hclosed] at hopen
  · simpa using h

theorem Posted.call (h : Posted d procs activity) (hentered : d.mEventLoop = true)
    (hcall : d.Call result) : Posted result.1 (procs ++ result.2) activity := by
  cases hcall with
  | quiet buffer recvData checkTime timer =>
      rw [List.append_nil]
      exact h.of_eq hentered rfl rfl rfl rfl rfl
  | canSend =>
      refine Posted.runAfterFlush (h.of_eq hentered ?_ ?_ ?_ ?_ ?_) ?_
      all_goals unfold DataSocket.removeCheckWrite
      all_goals split
      all_goals first | rfl | exact hentered
  | onClose => exact h.onClose hentered
  | postShutdown => exact h.postShutdown hentered

/-- A socket the loop is busy with has entered. -/
theorem Posted.entered_of_ne_away (h : Posted d procs activity) (hactivity : activity ≠ .away) :
    d.mEventLoop = true := by
  by_contra hno
  exact hactivity (h.unentered (Bool.not_eq_true _ ▸ hno)).2.2

theorem Posted.entered_of_proc (h : Posted d procs activity) (hprocs : procs ≠ []) :
    d.mEventLoop = true := by
  by_contra hno
  exact hprocs (h.unentered (Bool.not_eq_true _ ▸ hno)).2.1

/-- While the disconnect closure is not running, `activity` may change. -/
theorem Posted.goto {next : Activity} (h : Posted d procs activity)
    (hentered : d.mEventLoop = true) (hactivity : activity ≠ .closing) (hnext : next ≠ .closing) :
    Posted d procs next where
  unentered hno := by simp [hentered] at hno
  entered := h.entered
  final := h.final
  flushes := h.flushes
  opened hopen := ⟨(h.opened hopen).1, hnext⟩
  closed hclosed := by
    rcases h.closed hclosed with ⟨hclosing, -⟩ | ⟨-, hothers⟩
    · exact absurd hclosing hactivity
    · exact .inr ⟨hnext, hothers⟩

/-- The first closure is taken out, and it is not the disconnect closure. -/
theorem Posted.pop {proc : AfterProc} (h : Posted d (proc :: procs) .away)
    (hproc : proc ≠ .disConnect) (hactivity : activity ≠ .closing) :
    Posted { d with mIsPostFlush := d.mIsPostFlush && proc != .flush } procs activity where
  unentered hno := by
    have hentered := h.entered_of_proc (by simp)
    simp [hentered] at hno
  entered := h.entered
  final := h.final
  flushes := by
    have hflushes := h.flushes
    rw [List.count_cons] at hflushes
    cases proc <;> cases hpost : d.mIsPostFlush <;> simp_all
  opened hopen := by
    have hno := (h.opened hopen).1
    rw [List.mem_cons, not_or] at hno
    exact ⟨hno.2, hactivity⟩
  closed hclosed := by
    rcases h.closed hclosed with ⟨hclosing, -⟩ | ⟨-, others, hno, hothers⟩
    · cases hclosing
    · cases others with
      -- The closure that was taken out would be the disconnect closure itself.
      | nil =>
          rw [List.nil_append, List.cons.injEq] at hothers
          exact absurd hothers.1 hproc
      | cons other others =>
          rw [List.cons_append, List.cons.injEq] at hothers
          rw [List.mem_cons, not_or] at hno
          exact .inr ⟨hactivity, others, hno.2, hothers.2⟩

/-- The disconnect closure is the last one. -/
theorem Posted.disConnect (h : Posted d (.disConnect :: procs) .away) :
    d.mSocket = none ∧ procs = [] := by
  have hclosed : d.mSocket = none := by
    by_contra hopen
    exact (h.opened (Option.ne_none_iff_isSome.mp hopen)).1 (List.mem_cons_self ..)
  refine ⟨hclosed, ?_⟩
  rcases h.closed hclosed with ⟨hclosing, -⟩ | ⟨-, others, hno, hothers⟩
  · cases hclosing
  · cases others with
    | nil =>
        rw [List.nil_append, List.cons.injEq] at hothers
        exact hothers.2
    | cons other others =>
        rw [List.cons_append, List.cons.injEq] at hothers
        rw [← hothers.1] at hno
        exact absurd (List.mem_cons_self ..) hno

theorem Wf.of_posted (hsocket : c.socket = some d) (hposted : Posted d c.procs c.activity) :
    c.Wf := by
  refine ⟨by simp [hsocket], ?_⟩
  intro d' hd'
  rw [hsocket, Option.some.injEq] at hd'
  exact hd' ▸ hposted

/-- The parts of `quickFlush` change neither the flags nor the closures. -/
theorem Wf.flushing {d' : DataSocket} {next : Activity} (h : c.Wf) (hd : c.socket = some d)
    (hactivity : c.activity ≠ .away) (hopen : c.activity ≠ .closing) (hnext : next ≠ .closing)
    (hsame : d'.mEventLoop = d.mEventLoop ∧ d'.mUD = d.mUD ∧
      d'.mIsPostFinalClose = d.mIsPostFinalClose ∧ d'.mSocket = d.mSocket ∧
      d'.mIsPostFlush = d.mIsPostFlush) :
    Posted d' c.procs next := by
  have hposted := h.posted d hd
  have hentered := hposted.entered_of_ne_away hactivity
  obtain ⟨heventLoop, hud, hfinal, hsocket, hpostFlush⟩ := hsame
  exact (hposted.goto hentered hopen hnext).of_eq hentered heventLoop hud hfinal hsocket hpostFlush

theorem Wf.step (h : c.Wf) (hstep : Step c c') : c'.Wf := by
  cases hstep with
  -- Before it has entered, an object is new and has no closure.
  | created hnew => exact .of_posted rfl (Posted.of_isNew hnew)
  | refused hd hno =>
      obtain ⟨-, hprocs, hactivity⟩ := (h.posted _ hd).unentered hno
      exact ⟨fun _ => ⟨hprocs, hactivity⟩, by simp⟩
  | entered sid hd hno =>
      obtain ⟨hnew, hprocs, hactivity⟩ := (h.posted _ hd).unentered hno
      refine .of_posted rfl ?_
      exact ⟨by simp, fun _ => rfl, (h.posted _ hd).final, (h.posted _ hd).flushes,
        (h.posted _ hd).opened, (h.posted _ hd).closed⟩
  -- The member functions post closures behind those that are queued.
  | called hd hentered _ hcall => exact .of_posted rfl ((h.posted _ hd).call hentered hcall)
  | applied hd _ _ => exact ⟨h.gone, h.posted⟩
  | sent caller packet callback hd hentered _ =>
      refine .of_posted rfl (Posted.runAfterFlush ?_ hentered)
      exact (h.posted _ hd).of_eq hentered rfl rfl rfl rfl rfl
  | handle hd hentered hactivity =>
      refine .of_posted hd ((h.posted _ hd).goto hentered ?_ ?_)
      · simp [hactivity]
      · simp
  | handled hactivity =>
      refine ⟨fun hnone => ⟨(h.gone hnone).1, rfl⟩, ?_⟩
      intro d hd
      have hposted := h.posted d hd
      have hentered := hposted.entered_of_ne_away (by simp [hactivity])
      exact hposted.goto hentered (by simp [hactivity]) (by simp)
  | received hd _ _ => exact ⟨h.gone, h.posted⟩
  -- The after-loop procs take the first closure out.
  | flush hd hactivity hprocs =>
      have hposted := h.posted _ hd
      rw [hactivity, hprocs] at hposted
      refine .of_posted rfl ?_
      simpa using hposted.pop (by simp) (by split <;> simp)
  | shutdown hd hactivity hprocs =>
      have hposted := h.posted _ hd
      rw [hactivity, hprocs] at hposted
      have hentered := hposted.entered_of_proc (by simp)
      refine .of_posted rfl ?_
      change Posted _ _ c.activity
      rw [hactivity]
      refine (hposted.pop (by simp) (by simp)).of_eq hentered ?_ ?_ ?_ ?_ ?_
      all_goals unfold DataSocket.procShutdownInLoop
      all_goals split
      all_goals simp
  | disConnect hd hactivity hprocs =>
      have hposted := h.posted _ hd
      rw [hactivity, hprocs] at hposted
      have hentered := hposted.entered_of_proc (by simp)
      obtain ⟨hclosed, rfl⟩ := hposted.disConnect
      refine .of_posted hd ?_
      have hflushes := hposted.flushes
      exact ⟨by simp [hentered], hposted.entered, hposted.final, by simpa using hflushes,
        by simp [hclosed], fun _ => .inl ⟨rfl, rfl⟩⟩
  -- The closure that deletes is the last one, so nothing is posted to the object.
  | deleted hactivity =>
      refine ⟨fun _ => ⟨?_, rfl⟩, by simp⟩
      cases hd : c.socket with
      | none => exact (h.gone hd).1
      | some d =>
          have hposted := h.posted d hd
          have hclosed : d.mSocket = none := by
            by_contra hopen
            exact (hposted.opened (Option.ne_none_iff_isSome.mp hopen)).2 hactivity
          rcases hposted.closed hclosed with ⟨-, hprocs⟩ | ⟨hno, -⟩
          · exact hprocs
          · exact absurd hactivity hno
  -- The steps of a flush leave what was posted, and none of them closes.
  | flushLeft hd hactivity _ =>
      exact .of_posted hd (h.flushing hd (by simp [hactivity]) (by simp [hactivity]) (by simp)
        ⟨rfl, rfl, rfl, rfl, rfl⟩)
  | blocked hd hactivity _ =>
      exact .of_posted rfl (h.flushing hd (by simp [hactivity]) (by simp [hactivity]) (by simp)
        ⟨rfl, rfl, rfl, rfl, rfl⟩)
  | accepted full hd hactivity _ =>
      exact .of_posted hd (h.flushing hd (by simp [hactivity]) (by simp [hactivity]) (by simp)
        ⟨rfl, rfl, rfl, rfl, rfl⟩)
  | shrunk hd hactivity hlist _ =>
      refine .of_posted rfl (h.flushing hd (by simp [hactivity]) (by simp [hactivity]) (by simp) ?_)
      simp [DataSocket.shrinkFront, hlist]
  | erased hd hactivity _ _ =>
      exact .of_posted rfl (h.flushing hd (by simp [hactivity]) (by simp [hactivity]) (by simp)
        ⟨rfl, rfl, rfl, rfl, rfl⟩)
  | complete hd hactivity _ _ =>
      exact .of_posted hd (h.flushing hd (by simp [hactivity]) (by simp [hactivity]) (by simp)
        ⟨rfl, rfl, rfl, rfl, rfl⟩)
  | completed hd hactivity =>
      exact .of_posted rfl (h.flushing hd (by simp [hactivity]) (by simp [hactivity]) (by simp)
        ⟨rfl, rfl, rfl, rfl, rfl⟩)
  | writeMore hd hactivity _ =>
      exact .of_posted hd (h.flushing hd (by simp [hactivity]) (by simp [hactivity]) (by simp)
        ⟨rfl, rfl, rfl, rfl, rfl⟩)
  | partly hd hactivity _ _ =>
      exact .of_posted rfl (h.flushing hd (by simp [hactivity]) (by simp [hactivity]) (by simp)
        ⟨rfl, rfl, rfl, rfl, rfl⟩)

end Connection

end Brynet
