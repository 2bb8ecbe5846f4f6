import Brynet.Net.Connection

/-!
# Every step of the loop is made of steps of connections

`IOLoop.connection` is what a state of the loop says about one socket.
`Refs` collects what the raw pointers of the loop rest on: whatever the session
table, the timers, the async procs and the epoll entries refer to is alive.  With
it, a step of the loop takes every connection through steps of its own and never
uses an object that was deleted (`Sound`); that this is so for every step is
proved in `Brynet.Net.Soundness`.

The plan of a step at one socket is always the same:

* the other connections are untouched (`Local.others`), because a call on a socket
  writes to its own slot of the heap and posts closures under its own pointer;
* the connection of the socket makes the steps of `Connection.Step` that the source's
  code amounts to (`Local.steps`);
* nothing that is referred to disappears (`Keeps`, `SameRefs`).

`Inv.sound_of_local` puts these together, and `Inv.sound_storeGoto`, `Inv.sound_goto`,
`Inv.sound_store` and `Inv.sound_log` are its cases for the ways in which the machine
updates its state.
-/

namespace Brynet

open MachineInt Memory Transition

/-- The closure of `ds`, if it is one. -/
def LoopProc.of? (ds : Ptr) : LoopProc → Option AfterProc
  | socket owner proc => if owner = ds then some proc else none
  | user => none

/-- The socket that is entering, if it is such a closure. -/
def AsyncProc.entering? : AsyncProc → Option Ptr
  | enter ds => some ds
  | session .. | user => none

namespace IOLoopPc

/-- The socket whose member function the loop thread is in. -/
def socket? : IOLoopPc → Option Ptr
  | calls ds _ | recv ds _ | dataCallback ds _ _ _ => some ds
  | quickFlush ds | erase ds _ _ | completeCallback ds _ _ _ => some ds
  | disConnectCallback ds => some ds
  | phase _ | userCode _ => none

def doing : IOLoopPc → Activity
  | calls .. | recv .. | dataCallback .. => .handling
  | quickFlush _ => .writing
  | erase _ tmpLen full => .erasing tmpLen full
  | completeCallback _ tmpLen full _ => .completing tmpLen full
  | disConnectCallback _ => .closing
  | phase _ | userCode _ => .away

def activity (pc : IOLoopPc) (ds : Ptr) : Activity :=
  if pc.socket? = some ds then pc.doing else .away

/-- The part of the turn the loop thread is in. -/
def part : IOLoopPc → LoopPhase
  | phase p => p
  | calls .. | recv .. | dataCallback .. => .events
  | quickFlush _ | erase .. | completeCallback .. | disConnectCallback _ => .after
  | userCode back => back

end IOLoopPc

namespace IOLoop

/-- The queued closures of `ds`, in the order in which they will run. -/
def procsOf (s : IOLoop) (ds : Ptr) : List AfterProc :=
  (s.mCopyAfterLoopProcs ++ s.mAfterLoopProcs).filterMap (LoopProc.of? ds)

def historyOf (s : IOLoop) (ds : Ptr) : List SocketEvent :=
  s.trace.filterMap fun (owner, event) => if owner = ds then some event else none

def connection (s : IOLoop) (ds : Ptr) : Connection where
  socket := s.heap ds
  procs := s.procsOf ds
  activity := s.pc.activity ds
  history := s.historyOf ds
  delivered := s.delivered ds
  wire := s.wire ds

variable {s s' : IOLoop} {ds other : Ptr} {d : DataSocket}
  {result : DataSocket × List AfterProc}

/-! ## The connections of updated states -/

theorem filterMap_procs_self (ds : Ptr) (procs : List AfterProc) :
    (procs.map (LoopProc.socket ds)).filterMap (LoopProc.of? ds) = procs := by
  induction procs with
  | nil => rfl
  | cons proc procs ih =>
      have hself : LoopProc.of? ds (.socket ds proc) = some proc := if_pos rfl
      rw [List.map_cons, List.filterMap_cons_some hself, ih]

theorem filterMap_procs_of_ne (hne : other ≠ ds) (procs : List AfterProc) :
    (procs.map (LoopProc.socket ds)).filterMap (LoopProc.of? other) = [] := by
  simp [LoopProc.of?, hne.symm]

@[simp] theorem connection_log_self (s : IOLoop) (ds : Ptr) (event : SocketEvent) :
    (s.log ds event).connection ds = (s.connection ds).log event := by
  simp [connection, log, Connection.log, historyOf, procsOf]

theorem connection_log_of_ne (hne : other ≠ ds) (event : SocketEvent) :
    (s.log ds event).connection other = s.connection other := by
  simp [connection, log, historyOf, procsOf, hne.symm]

theorem connection_store_self (s : IOLoop) (ds : Ptr) (d : DataSocket)
    (result : DataSocket × List AfterProc) :
    (s.store ds d result).connection ds = (s.connection ds).call d result := by
  have hprocs := filterMap_procs_self ds result.2
  simp only [connection, store, Connection.call, historyOf, procsOf, Function.update_self,
    List.filterMap_append, hprocs, List.append_assoc]
  split <;> simp

theorem connection_store_of_ne (hne : other ≠ ds) :
    (s.store ds d result).connection other = s.connection other := by
  have hprocs := filterMap_procs_of_ne hne result.2
  simp only [connection, store, historyOf, procsOf, Function.update_of_ne hne,
    List.filterMap_append, hprocs, List.append_nil]
  split <;> simp [hne.symm]

theorem connection_goto (s : IOLoop) (pc : IOLoopPc) (ds : Ptr) :
    (s.goto pc).connection ds = { s.connection ds with activity := pc.activity ds } := rfl

/-! ## Steps at one socket -/

/-- Only the connection of `ds` changes, by its own steps. -/
structure Local (s s' : IOLoop) (ds : Ptr) : Prop where
  others : ∀ other, other ≠ ds → s'.connection other = s.connection other
  steps : (s.connection ds).Steps (s'.connection ds)

theorem Local.all (h : Local s s' ds) (other : Ptr) :
    (s.connection other).Steps (s'.connection other) := by
  by_cases heq : other = ds
  · exact heq ▸ h.steps
  · rw [h.others other heq]

theorem Local.log {event : SocketEvent}
    (h : Connection.Step (s.connection ds) ((s.connection ds).log event)) :
    Local s (s.log ds event) ds :=
  ⟨fun _ hne => connection_log_of_ne hne event, by
    rw [connection_log_self]
    exact .single h⟩

/-! ## References -/

/-- What the raw pointers of the loop rest on. -/
structure Refs (s : IOLoop) : Prop where
  fresh : ∀ ds, s.nextPtr ≤ ds → s.connection ds = .absent
  entries_part : s.entries ≠ [] → s.pc.part = .events
  async_part : s.mCopyAsyncProcs ≠ [] → s.pc.part = .async
  after_part : s.mCopyAfterLoopProcs ≠ [] → s.pc.part = .after
  slots : ∀ index ds, s.data.mDataSockets.get index = some (some ds) →
    s.pc ≠ .disConnectCallback ds ∧
      ∃ d sid, s.heap ds = some d ∧ d.mUD = some sid ∧ sid.index.toNat = index
  timers : ∀ timer ∈ s.timers, timer.mActive = true →
    ∃ d, s.heap timer.ds = some d ∧ d.mTimer = some timer.id
  entering : ∀ ds, .enter ds ∈ s.mCopyAsyncProcs ++ s.mAsyncProcs →
    ∃ d, s.heap ds = some d ∧ d.mEventLoop = false
  entering_nodup : ((s.mCopyAsyncProcs ++ s.mAsyncProcs).filterMap AsyncProc.entering?).Nodup
  entries : ∀ entry ∈ s.entries, ∃ d, s.heap entry.ds = some d ∧ d.mEventLoop = true

/-- No object is gone, and what the references look at is as it was. -/
def Keeps (s s' : IOLoop) : Prop :=
  ∀ ds d, s.heap ds = some d → ∃ d', s'.heap ds = some d' ∧
    d'.mEventLoop = d.mEventLoop ∧ d'.mUD = d.mUD ∧ d'.mTimer = d.mTimer

theorem Keeps.of_heap (h : s'.heap = s.heap) : Keeps s s' :=
  fun ds d hd => ⟨d, by rw [h, hd], rfl, rfl, rfl⟩

theorem Keeps.update {d' : DataSocket} (hheap : s'.heap = Function.update s.heap ds (some d'))
    (hd : s.heap ds = some d) (hloop : d'.mEventLoop = d.mEventLoop) (hud : d'.mUD = d.mUD)
    (htimer : d'.mTimer = d.mTimer) : Keeps s s' := by
  intro other e he
  rw [hheap]
  by_cases heq : other = ds
  · subst heq
    rw [hd, Option.some.injEq] at he
    subst he
    exact ⟨d', Function.update_self .., hloop, hud, htimer⟩
  · exact ⟨e, by rw [Function.update_of_ne heq, he], rfl, rfl, rfl⟩

/-- The lists of references are the same, and the loop thread has not moved on. -/
structure SameRefs (s s' : IOLoop) : Prop where
  nextPtr : s'.nextPtr = s.nextPtr
  data : s'.data = s.data
  timers : s'.timers = s.timers
  async : s'.mAsyncProcs = s.mAsyncProcs
  copyAsync : s'.mCopyAsyncProcs = s.mCopyAsyncProcs
  entries : s'.entries = s.entries
  part : s'.pc.part = s.pc.part
  copyAfter : s'.mCopyAfterLoopProcs ≠ [] → s'.pc.part = .after
  closing : ∀ ds, s'.pc = .disConnectCallback ds → s.pc = .disConnectCallback ds

/-- A list other than that of the timers refers to the object. -/
def Referenced (s : IOLoop) (ds : Ptr) : Prop :=
  (∃ index, s.data.mDataSockets.get index = some (some ds)) ∨
  .enter ds ∈ s.mCopyAsyncProcs ++ s.mAsyncProcs ∨ ∃ entry ∈ s.entries, entry.ds = ds

/-- The lists of references other than that of the timers are the same, and the loop
thread has not moved on. -/
structure SameLists (s s' : IOLoop) : Prop where
  nextPtr : s'.nextPtr = s.nextPtr
  data : s'.data = s.data
  async : s'.mAsyncProcs = s.mAsyncProcs
  copyAsync : s'.mCopyAsyncProcs = s.mCopyAsyncProcs
  entries : s'.entries = s.entries
  part : s'.pc.part = s.pc.part
  copyAfter : s'.mCopyAfterLoopProcs ≠ [] → s'.pc.part = .after
  closing : ∀ ds, s'.pc = .disConnectCallback ds → s.pc = .disConnectCallback ds

theorem SameRefs.lists (h : SameRefs s s') : SameLists s s' :=
  ⟨h.nextPtr, h.data, h.async, h.copyAsync, h.entries, h.part, h.copyAfter, h.closing⟩

/-- The references stay good if the objects that are referred to are there as they were, and
the timers are good. -/
theorem Refs.of_referenced (h : s.Refs) (hsame : SameLists s s')
    (hothers : ∀ other, other ≠ ds → s'.connection other = s.connection other)
    (hlive : ds < s.nextPtr)
    (hkeeps : ∀ {owner e}, s.Referenced owner → s.heap owner = some e →
      ∃ e', s'.heap owner = some e' ∧ e'.mEventLoop = e.mEventLoop ∧ e'.mUD = e.mUD)
    (htimers : ∀ timer ∈ s'.timers, timer.mActive = true →
      ∃ d, s'.heap timer.ds = some d ∧ d.mTimer = some timer.id) : s'.Refs where
  fresh other hother := by
    rw [hsame.nextPtr] at hother
    rw [hothers other (hlive.trans_le hother).ne']
    exact h.fresh other hother
  entries_part := by
    rw [hsame.entries, hsame.part]
    exact h.entries_part
  async_part := by
    rw [hsame.copyAsync, hsame.part]
    exact h.async_part
  after_part := hsame.copyAfter
  -- What is referred to now was referred to before, so its object is there as it was.
  slots index owner hget := by
    rw [hsame.data] at hget
    obtain ⟨hclosing, d, sid, hd, hud, hindex⟩ := h.slots index owner hget
    obtain ⟨d', hd', -, hud'⟩ := hkeeps (.inl ⟨index, hget⟩) hd
    exact ⟨fun hpc => hclosing (hsame.closing owner hpc), d', sid, hd', hud'.trans hud, hindex⟩
  timers := htimers
  entering owner hmem := by
    rw [hsame.async, hsame.copyAsync] at hmem
    obtain ⟨d, hd, hloop⟩ := h.entering owner hmem
    obtain ⟨d', hd', hloop', -⟩ := hkeeps (.inr (.inl hmem)) hd
    exact ⟨d', hd', hloop'.trans hloop⟩
  entering_nodup := by
    rw [hsame.async, hsame.copyAsync]
    exact h.entering_nodup
  entries entry hentry := by
    rw [hsame.entries] at hentry
    obtain ⟨d, hd, hloop⟩ := h.entries entry hentry
    obtain ⟨d', hd', hloop', -⟩ := hkeeps (.inr (.inr ⟨entry, hentry, rfl⟩)) hd
    exact ⟨d', hd', hloop'.trans hloop⟩

theorem Refs.of_keeps (h : s.Refs) (hkeeps : Keeps s s') (hsame : SameRefs s s')
    (hothers : ∀ other, other ≠ ds → s'.connection other = s.connection other)
    (hlive : ds < s.nextPtr) : s'.Refs := by
  refine h.of_referenced hsame.lists hothers hlive (fun _ he => ?_) fun timer htimer hactive => ?_
  · obtain ⟨e', he', hloop, hud, -⟩ := hkeeps _ _ he
    exact ⟨e', he', hloop, hud⟩
  · rw [hsame.timers] at htimer
    obtain ⟨d, hd, hid⟩ := h.timers timer htimer hactive
    obtain ⟨d', hd', -, -, hid'⟩ := hkeeps timer.ds d hd
    exact ⟨d', hd', hid'.trans hid⟩

/-- A live object was created before. -/
theorem Refs.lt_of_heap (h : s.Refs) (hd : s.heap ds = some d) : ds < s.nextPtr := by
  by_contra hge
  have habsent := congrArg Connection.socket (h.fresh ds (Nat.le_of_not_lt hge))
  rw [connection, hd] at habsent
  cases habsent

/-- A step of the loop is sound: references stay good, connections take steps of
their own, and no deleted object is used. -/
structure Sound (s s' : IOLoop) : Prop where
  refs : s'.Refs
  steps : ∀ ds, (s.connection ds).Steps (s'.connection ds)
  fault : s'.fault ≠ some .useAfterFree

theorem Sound.trans {mid : IOLoop} (h : Sound s mid) (h' : Sound mid s') : Sound s s' :=
  ⟨h'.refs, fun ds => (h.steps ds).trans (h'.steps ds), h'.fault⟩

/-- What is known about a state before a step. -/
structure Inv (s : IOLoop) : Prop where
  refs : s.Refs
  wf : ∀ ds, (s.connection ds).Wf
  fault : s.fault ≠ some .useAfterFree

theorem Inv.sound (inv : s.Inv) (h : Sound s s') : s'.Inv :=
  ⟨h.refs, fun ds => Connection.Steps.preserve (fun _ _ => Connection.Wf.step) (h.steps ds)
    (inv.wf ds), h.fault⟩

theorem inv_initial : initial.Inv where
  refs := by
    refine ⟨fun _ _ => rfl, ?_, ?_, ?_, ?_, ?_, ?_, ?_, ?_⟩
    all_goals simp [initial, IOLoopData.empty, TypeIDS.empty, TypeIDS.get]
  wf _ := Connection.wf_absent
  fault := by simp [initial]

theorem Inv.sound_of_local (inv : s.Inv) (hlocal : Local s s' ds) (hkeeps : Keeps s s')
    (hsame : SameRefs s s') (hlive : ds < s.nextPtr) (hfault : s'.fault = s.fault) :
    Sound s s' :=
  ⟨inv.refs.of_keeps hkeeps hsame hlocal.others hlive, hlocal.all, hfault ▸ inv.fault⟩

/-! ## Storing and moving on -/

variable {pc : IOLoopPc}

@[simp] theorem activity_phase (p : LoopPhase) (ds : Ptr) :
    (IOLoopPc.phase p).activity ds = .away := rfl

@[simp] theorem activity_userCode (p : LoopPhase) (ds : Ptr) :
    (IOLoopPc.userCode p).activity ds = .away := rfl

/-- Between its parts the loop thread is in no socket. -/
theorem away_of_phase {p : LoopPhase} (hpc : s.pc = .phase p) (ds : Ptr) :
    (s.connection ds).activity = .away := by
  change s.pc.activity ds = .away
  rw [hpc, activity_phase]

theorem activity_self (h : pc.socket? = some ds) : pc.activity ds = pc.doing := if_pos h

theorem activity_of_ne (h : pc.socket? = some ds) (hne : other ≠ ds) :
    pc.activity other = .away := by
  rw [IOLoopPc.activity, h, if_neg]
  simpa using hne.symm

/-- The loop thread may go from where it is in the work on `ds` to `pc`. -/
structure Moves (s : IOLoop) (ds : Ptr) (pc : IOLoopPc) : Prop where
  part : pc.part = s.pc.part
  closing : ∀ ds, pc ≠ .disConnectCallback ds
  others : ∀ other, other ≠ ds → pc.activity other = s.pc.activity other

theorem Moves.of_socket (hfrom : s.pc.socket? = some ds) (hto : pc.socket? = some ds)
    (hpart : pc.part = s.pc.part) (hclosing : ∀ ds, pc ≠ .disConnectCallback ds) :
    Moves s ds pc :=
  ⟨hpart, hclosing, fun _ hne => by rw [activity_of_ne hfrom hne, activity_of_ne hto hne]⟩

theorem Moves.away {p : LoopPhase} (hfrom : s.pc.socket? = some ds) (hpart : p = s.pc.part) :
    Moves s ds (.phase p) :=
  ⟨hpart, by simp, fun _ hne => by rw [activity_of_ne hfrom hne, activity_phase]⟩

/-- The fields that `Keeps` looks at. -/
def SameTags (d d' : DataSocket) : Prop :=
  d'.mEventLoop = d.mEventLoop ∧ d'.mUD = d.mUD ∧ d'.mTimer = d.mTimer

theorem Inv.sound_storeGoto (inv : s.Inv) (hd : s.heap ds = some d)
    (htags : SameTags d result.1) (hmoves : Moves s ds pc)
    (hsteps : (s.connection ds).Steps
      { (s.connection ds).call d result with activity := pc.activity ds }) :
    Sound s ((s.store ds d result).goto pc) := by
  have hlocal : Local s ((s.store ds d result).goto pc) ds := by
    refine ⟨?_, ?_⟩
    · intro other hne
      rw [connection_goto, connection_store_of_ne hne, hmoves.others other hne]
      rfl
    · rw [connection_goto, connection_store_self]
      exact hsteps
  refine inv.sound_of_local hlocal ?_ ?_ (inv.refs.lt_of_heap hd) rfl
  · exact .update rfl hd htags.1 htags.2.1 htags.2.2
  · refine ⟨rfl, rfl, rfl, rfl, rfl, rfl, hmoves.part, ?_, fun ds hpc => absurd hpc (hmoves.closing ds)⟩
    exact fun hne => hmoves.part.trans (inv.refs.after_part hne)

theorem Inv.sound_goto (inv : s.Inv) (hd : s.heap ds = some d) (hmoves : Moves s ds pc)
    (hsteps : (s.connection ds).Steps
      { s.connection ds with activity := pc.activity ds }) : Sound s (s.goto pc) := by
  have hlocal : Local s (s.goto pc) ds := by
    refine ⟨?_, hsteps⟩
    intro other hne
    rw [connection_goto, hmoves.others other hne]
    rfl
  refine inv.sound_of_local hlocal (.of_heap rfl) ?_ (inv.refs.lt_of_heap hd) rfl
  refine ⟨rfl, rfl, rfl, rfl, rfl, rfl, hmoves.part, ?_, fun ds hpc => absurd hpc (hmoves.closing ds)⟩
  exact fun hne => hmoves.part.trans (inv.refs.after_part hne)

theorem Inv.sound_store (inv : s.Inv) (hd : s.heap ds = some d) (htags : SameTags d result.1)
    (hsteps : (s.connection ds).Steps ((s.connection ds).call d result)) :
    Sound s (s.store ds d result) := by
  have hlocal : Local s (s.store ds d result) ds :=
    ⟨fun _ hne => connection_store_of_ne hne, by rwa [connection_store_self]⟩
  refine inv.sound_of_local hlocal ?_ ?_ (inv.refs.lt_of_heap hd) rfl
  · exact .update rfl hd htags.1 htags.2.1 htags.2.2
  · exact ⟨rfl, rfl, rfl, rfl, rfl, rfl, rfl, inv.refs.after_part, fun _ hpc => hpc⟩

theorem Inv.sound_log (inv : s.Inv) {event : SocketEvent} (hd : s.heap ds = some d)
    (hstep : Connection.Step (s.connection ds) ((s.connection ds).log event)) :
    Sound s (s.log ds event) :=
  inv.sound_of_local (.log hstep) (.of_heap rfl)
    ⟨rfl, rfl, rfl, rfl, rfl, rfl, rfl, inv.refs.after_part, fun _ hpc => hpc⟩
    (inv.refs.lt_of_heap hd) rfl

/-- The socket whose member function the loop thread is in is alive. -/
theorem Inv.live_of_pc (inv : s.Inv) (hsocket : s.pc.socket? = some ds)
    (hdoing : s.pc.doing ≠ .away) :
    ∃ d, s.heap ds = some d ∧ d.mEventLoop = true := by
  have hactivity : (s.connection ds).activity ≠ .away := by
    change s.pc.activity ds ≠ .away
    rwa [activity_self hsocket]
  cases hd : s.heap ds with
  | none => exact absurd ((inv.wf ds).gone hd).2 hactivity
  | some d => exact ⟨d, rfl, ((inv.wf ds).posted d hd).entered_of_ne_away hactivity⟩

end IOLoop

end Brynet
