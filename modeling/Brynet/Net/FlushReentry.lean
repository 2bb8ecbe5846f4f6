import Brynet.Net.FlushDrain

/-!
# Complete callbacks that use the session

The erase loop of both flush functions calls complete callbacks, and a callback may
use the session it was sent on: on the loop thread `send` appends to `mSendList` at
once, and `postDisConnect` resets `mSocket` at once.  The loop does not expect either.

* `it = mSendList.erase(it)` follows the callback.  `push_back` has made the iterator of
  a `std::deque` stale, so a callback that sends makes the erasure undefined.
* Behind the loop a partial write goes on with `checkWrite`, and a full one with the
  next turn if packets are left.  Both use `mSocket`.

`Reentry` is a flush whose callbacks do this, with both kinds of misuse as faults.  A
step is `considerate` if it is no `send`, and no `postDisConnect` before a use of `mSocket`.
The considerate runs are those without faults.

For the considerate runs the invariant `Inv` says that the iterator is good and that a
closed socket is not used again, since the bytes in hand cover the list (`Covered`).  For
the others, each step that is not considerate leads to a fault: at once when the callback
returns (`faults_of_stale`), or at the next use of the null socket, which the erase loop
reaches in any case (`faults_of_erase`).
-/

namespace Brynet

open MachineInt Transition

/-- What a complete callback does to its session. -/
inductive CallbackOp
  | send (packet : List UInt8) (callback : Bool)
  | postDisConnect
deriving Repr, DecidableEq

/-- Undefined behaviour of a flush. -/
inductive FlushFault
  | nullSocket
  | staleIterator
deriving Repr, DecidableEq

/-- Where the flush is: before a turn of the outer loop, in the erase loop, inside a
complete callback called by it, or at its end. -/
inductive ReentryPc
  | turn
  | erase (tmpLen : ℕ) (full : Bool)
  | callback (tmpLen : ℕ) (full : Bool)
  | done
deriving Repr, DecidableEq

/-- A running flush.  `stale` says whether `mSendList` was inserted into since the
iterator of the erase loop was obtained. -/
structure Reentry where
  ds : DataSocket
  procs : List AfterProc
  pc : ReentryPc
  stale : Bool
  fault : Option FlushFault
deriving Repr, DecidableEq

inductive ReentryAction
  | leave
  | send (r : WritevResult)
  | erase
  | op (o : CallbackOp)
  | callbackReturn
deriving Repr, DecidableEq

namespace Reentry

def start (ds : DataSocket) : Reentry where
  ds := ds
  procs := []
  pc := .turn
  stale := false
  fault := none

/-- Store the outcome of a member function. -/
def store (s : Reentry) (result : DataSocket × List AfterProc) (pc : ReentryPc) : Reentry :=
  { s with ds := result.1, procs := s.procs ++ result.2, pc := pc }

/-- After the system call; the erase loop takes its iterator from `begin`. -/
def afterSend (path : FlushPath) (s : Reentry) : WritevResult → Reentry
  | .accepted count => { s with pc := .erase count (path.full s.ds count), stale := false }
  | .wouldBlock => s.store (s.ds.blockWrite, []) .done
  | .error => s.store (s.ds.leaveLoop true) .done

/-- After the erase loop. -/
def afterErase (s : Reentry) (full : Bool) : Reentry :=
  if full then { s with pc := .turn }
  else if s.ds.mSocket.isNone then { s with fault := some .nullSocket }
  else s.store (s.ds.blockWrite, []) .done

/-- A turn of the erase loop, up to the callback. -/
def eraseTurn (s : Reentry) (tmpLen : ℕ) (full : Bool) : Reentry :=
  match s.ds.mSendList with
  | [] => s.afterErase full
  | packet :: _ =>
      if tmpLen < packet.left then { s with ds := s.ds.shrinkFront tmpLen }.afterErase full
      else if packet.mCompleteCallback then { s with pc := .callback (tmpLen - packet.left) full }
      else s.store (s.ds.eraseFront, []) (.erase (tmpLen - packet.left) full)

/-- The callback uses its session. -/
def runOp (s : Reentry) (tmpLen : ℕ) (full : Bool) : CallbackOp → Reentry
  | .send packet callback =>
      { s.store (s.ds.sendInLoop packet callback) (.callback tmpLen full) with stale := true }
  | .postDisConnect => s.store s.ds.postDisConnect (.callback tmpLen full)

/-- The callback has returned; the packet is erased. -/
def returned (s : Reentry) (tmpLen : ℕ) (full : Bool) : Reentry :=
  if s.stale then { s with fault := some .staleIterator }
  else s.store (s.ds.eraseFront, []) (.erase tmpLen full)

def next (path : FlushPath) (s : Reentry) (action : ReentryAction) : Option Reentry :=
  if s.fault.isSome then none
  else match s.pc, action with
    | .turn, .leave => if path.leaves s.ds then some { s with pc := .done } else none
    | .turn, .send r =>
        if path.leaves s.ds then none
        else if s.ds.mSocket.isNone then some { s with fault := some .nullSocket }
        else if path.valid s.ds r then some (s.afterSend path r) else none
    | .erase tmpLen full, .erase => some (s.eraseTurn tmpLen full)
    | .callback tmpLen full, .op o => some (s.runOp tmpLen full o)
    | .callback tmpLen full, .callbackReturn => some (s.returned tmpLen full)
    | _, _ => none

/-- The flushes of any send list, on any socket that is open and writable.  `onClose`
sets `mIsPostFinalClose` and resets `mSocket` together. -/
def system (path : FlushPath) : System Reentry ReentryAction where
  init s := ∃ ds, ds.mSocket.isSome = true ∧ ds.mIsPostFinalClose = false ∧
    ds.mCanWrite = true ∧ LeftLe ds.mSendList ∧ s = start ds
  next := next path

/-- No callback sends, and a callback disconnects an open socket only if all bytes of the
list were accepted by the last call: this write was full, and the bytes behind the packet
of the callback are covered by it. -/
def considerate (s : Reentry) : ReentryAction → Bool
  | .op (.send _ _) => false
  | .op .postDisConnect =>
      match s.pc with
      | .callback tmpLen full =>
          s.ds.mSocket.isNone || (full && decide (leftSum s.ds.mSendList.tail ≤ tmpLen))
      | _ => true
  | _ => true

/-! ## Considerate callbacks -/

end Reentry

theorem LeftLe.shrinkFront {ds : DataSocket} (h : LeftLe ds.mSendList) (tmpLen : ℕ) :
    LeftLe (ds.shrinkFront tmpLen).mSendList := by
  unfold DataSocket.shrinkFront
  split
  next => exact h
  next packet rest hlist =>
    rw [hlist] at h
    obtain ⟨hpacket, hrest⟩ := List.forall_mem_cons.mp h
    exact List.forall_mem_cons.mpr ⟨(Nat.sub_le _ _).trans hpacket, hrest⟩

theorem LeftLe.tail {packets : List PendingPacket} (h : LeftLe packets) : LeftLe packets.tail :=
  fun packet hmem => h packet (List.mem_of_mem_tail hmem)

namespace Reentry

/-- What a flush still covers: once the socket is closed, the rest of the list. -/
def Covered (s : Reentry) : Prop :=
  match s.pc with
  | .turn => s.ds.mSocket = none → s.ds.mSendList = []
  | .erase tmpLen full => s.ds.mSocket = none → full = true ∧ leftSum s.ds.mSendList ≤ tmpLen
  | .callback tmpLen full =>
      s.ds.mSocket = none → full = true ∧ leftSum s.ds.mSendList.tail ≤ tmpLen
  | .done => True

/-- The invariant of considerate runs. -/
structure Inv (s : Reentry) : Prop where
  fault : s.fault = none
  stale : s.stale = false
  leftLe : LeftLe s.ds.mSendList
  final : s.ds.mIsPostFinalClose = s.ds.mSocket.isNone
  covered : s.Covered

variable {path : FlushPath} {s s' : Reentry}

theorem final_procCloseInLoop {ds : DataSocket} (h : ds.mIsPostFinalClose = ds.mSocket.isNone) :
    ds.procCloseInLoop.1.mIsPostFinalClose = ds.procCloseInLoop.1.mSocket.isNone := by
  cases hsocket : ds.mSocket <;>
    simp [DataSocket.procCloseInLoop, DataSocket.onClose, DataSocket.closeSocket, hsocket, h]

theorem inv_afterErase (hfault : s.fault = none) (hstale : s.stale = false)
    (hle : LeftLe s.ds.mSendList) (hfinal : s.ds.mIsPostFinalClose = s.ds.mSocket.isNone)
    {full : Bool} (hcovered : s.ds.mSocket = none → full = true ∧ s.ds.mSendList = []) :
    (s.afterErase full).Inv := by
  unfold Reentry.afterErase
  split
  next => exact ⟨hfault, hstale, hle, hfinal, fun hnone => (hcovered hnone).2⟩
  next hpart =>
    split
    next hnone => exact absurd (hcovered (Option.isNone_iff_eq_none.mp hnone)).1 hpart
    next => exact ⟨hfault, hstale, hle, hfinal, trivial⟩

theorem Inv.eraseTurn (h : s.Inv) {tmpLen : ℕ} {full : Bool} (hpc : s.pc = .erase tmpLen full) :
    (s.eraseTurn tmpLen full).Inv := by
  have hcovered := h.covered
  simp only [Covered, hpc] at hcovered
  unfold Reentry.eraseTurn
  split
  next hlist =>
    exact inv_afterErase h.fault h.stale h.leftLe h.final
      fun hnone => ⟨(hcovered hnone).1, hlist⟩
  next packet rest hlist =>
    rw [hlist, leftSum_cons] at hcovered
    split
    next hlt =>
      -- The bytes end inside this packet, so the socket is still open.
      have hopen : s.ds.mSocket ≠ none := by
        intro hnone
        have hle := (hcovered hnone).2
        omega
      have hsame : (s.ds.shrinkFront tmpLen).mSocket = s.ds.mSocket ∧
          (s.ds.shrinkFront tmpLen).mIsPostFinalClose = s.ds.mIsPostFinalClose := by
        simp [DataSocket.shrinkFront, hlist]
      exact @inv_afterErase { s with ds := s.ds.shrinkFront tmpLen } h.fault h.stale
        (h.leftLe.shrinkFront tmpLen) (by rw [hsame.1, hsame.2, h.final]) full
        fun hnone => absurd (hsame.1.symm.trans hnone) hopen
    next hge =>
      split
      next =>
        refine ⟨h.fault, h.stale, h.leftLe, h.final, fun hnone => ⟨(hcovered hnone).1, ?_⟩⟩
        have hle := (hcovered hnone).2
        simp only [hlist, List.tail_cons]
        omega
      next =>
        refine ⟨h.fault, h.stale, h.leftLe.tail, h.final,
          fun hnone => ⟨(hcovered hnone).1, ?_⟩⟩
        have hle := (hcovered hnone).2
        simp only [store, DataSocket.eraseFront, hlist, List.tail_cons]
        omega

theorem Inv.afterSend (h : s.Inv) (hopen : s.ds.mSocket ≠ none) (r : WritevResult) :
    (s.afterSend path r).Inv := by
  cases r with
  | accepted count => exact ⟨h.fault, rfl, h.leftLe, h.final, fun hnone => absurd hnone hopen⟩
  | wouldBlock => exact ⟨h.fault, h.stale, h.leftLe, h.final, trivial⟩
  | error =>
      refine ⟨h.fault, h.stale, ?_, final_procCloseInLoop h.final, trivial⟩
      exact (Flush.mSendList_procCloseInLoop s.ds).symm ▸ h.leftLe

/-- A callback that disconnects when everything is covered. -/
theorem Inv.disConnect (h : s.Inv) {tmpLen : ℕ} {full : Bool} (hpc : s.pc = .callback tmpLen full)
    (hok : s.considerate (.op .postDisConnect) = true) :
    (s.runOp tmpLen full .postDisConnect).Inv := by
  have hlist : s.ds.postDisConnect.1.mSendList = s.ds.mSendList :=
    Flush.mSendList_procCloseInLoop s.ds
  refine ⟨h.fault, h.stale, hlist.symm ▸ h.leftLe, final_procCloseInLoop h.final, fun _ => ?_⟩
  have hcovered := h.covered
  simp only [Covered, hpc] at hcovered
  simp only [considerate, hpc, Bool.or_eq_true, Bool.and_eq_true, decide_eq_true_eq,
    Option.isNone_iff_eq_none] at hok
  have hwhole : full = true ∧ leftSum s.ds.mSendList.tail ≤ tmpLen := by
    rcases hok with hnone | hwhole
    · exact hcovered hnone
    · exact hwhole
  simp only [runOp, store, hlist]
  exact hwhole

theorem Inv.next (h : s.Inv) {action : ReentryAction} (hok : s.considerate action = true)
    (hnext : s.next path action = some s') : s'.Inv := by
  have hcovered := h.covered
  unfold Reentry.next at hnext
  rw [if_neg (by simp [h.fault])] at hnext
  split at hnext
  next =>
    split at hnext
    · cases hnext
      exact ⟨h.fault, h.stale, h.leftLe, h.final, trivial⟩
    · cases hnext
  next r hpc =>
    split at hnext
    · cases hnext
    next hleaves =>
      -- With an empty list the loop was left, so the socket is open.
      have hopen : s.ds.mSocket ≠ none := by
        intro hnone
        simp only [Covered, hpc] at hcovered
        exact hleaves (by cases path <;> simp [FlushPath.leaves, hcovered hnone])
      rw [if_neg (by simpa using hopen)] at hnext
      split at hnext
      · cases hnext
        exact h.afterSend hopen r
      · cases hnext
  next tmpLen full hpc =>
    cases hnext
    exact h.eraseTurn hpc
  next tmpLen full o hpc =>
    cases hnext
    cases o with
    -- A considerate callback does not send, and closes only what is not used again.
    | send packet callback => cases hok
    | postDisConnect => exact h.disConnect hpc hok
  next tmpLen full hpc =>
    cases hnext
    simp only [Covered, hpc] at hcovered
    -- The iterator is good, so the callback's packet is erased.
    simp only [returned, h.stale, Bool.false_eq_true, if_false]
    exact ⟨h.fault, h.stale, h.leftLe.tail, h.final, hcovered⟩
  next => cases hnext

theorem inv_of_reachable (h : ((system path).restrict considerate).Reachable s) : s.Inv := by
  refine h.invariant ?_ ?_
  · rintro s ⟨ds, hopen, hfinal, -, hle, rfl⟩
    refine ⟨rfl, rfl, hle, ?_, fun hnone => absurd hnone (Option.isSome_iff_ne_none.mp hopen)⟩
    show ds.mIsPostFinalClose = ds.mSocket.isNone
    rw [hfinal, Option.isNone_eq_false_iff.mpr hopen]
  · intro s action s' _ inv hnext
    obtain ⟨hok, hnext⟩ := System.next_of_restrict hnext
    exact inv.next hok hnext

/-! ## The other callbacks -/

/-- Some continuation runs into a fault. -/
def Faults (path : FlushPath) (s : Reentry) : Prop :=
  ∃ actions s', (system path).run s actions = some s' ∧ s'.fault ≠ none

theorem Faults.of_fault (h : s.fault ≠ none) : Faults path s := ⟨[], s, rfl, h⟩

theorem Faults.of_next {action : ReentryAction} (hnext : s.next path action = some s')
    (h : Faults path s') : Faults path s := by
  obtain ⟨actions, t, hrun, hfault⟩ := h
  refine ⟨action :: actions, t, ?_, hfault⟩
  show (s.next path action).bind _ = some t
  rw [hnext]
  exact hrun

/-- A turn of a closed socket whose front packet has bytes. -/
theorem faults_of_turn (hfault : s.fault = none) (hnone : s.ds.mSocket = none)
    (hle : LeftLe s.ds.mSendList) (hpc : s.pc = .turn) {packet : PendingPacket}
    {rest : List PendingPacket} (hlist : s.ds.mSendList = packet :: rest) (hpos : 0 < packet.left) :
    Faults path s := by
  have hwanted : 0 < path.wanted s.ds := by
    rw [path.wanted_eq hle, hlist]
    exact path.batch_pos_of_head hpos
  have hleaves := FlushPath.leaves_of_pos (by simp [hlist]) hwanted
  have hnext : s.next path (.send .error) = some { s with fault := some .nullSocket } := by
    simp [next, hfault, hpc, hleaves, hnone]
  exact .of_next hnext (.of_fault (by simp))

theorem next_erase (hfault : s.fault = none) {tmpLen : ℕ} {full : Bool}
    (hpc : s.pc = .erase tmpLen full) : s.next path .erase = some (s.eraseTurn tmpLen full) := by
  simp [next, hfault, hpc]

/-- The socket was closed although the list is not covered.  The induction is on the
list, which the erase loop goes through until it meets a use of the socket. -/
theorem faults_of_erase (hfault : s.fault = none) (hstale : s.stale = false)
    (hnone : s.ds.mSocket = none) (hle : LeftLe s.ds.mSendList) {tmpLen : ℕ} {full : Bool}
    (hpc : s.pc = .erase tmpLen full) (hbad : full = true → tmpLen < leftSum s.ds.mSendList) :
    Faults path s := by
  induction hlist : s.ds.mSendList generalizing s tmpLen with
  | nil =>
      refine .of_next (next_erase hfault hpc) ?_
      have hpart : full = false := by
        cases full with
        | false => rfl
        | true => simp [hlist, leftSum] at hbad
      exact .of_fault (by simp [eraseTurn, hlist, afterErase, hpart, hnone])
  | cons packet rest ih =>
      refine .of_next (next_erase hfault hpc) ?_
      rw [hlist, leftSum_cons] at hbad
      have hrest : LeftLe rest := by
        rw [hlist] at hle
        exact hle.tail
      by_cases hlt : tmpLen < packet.left
      · have hshrink : (s.ds.shrinkFront tmpLen).mSendList =
            { packet with left := packet.left - tmpLen } :: rest := by
          simp [DataSocket.shrinkFront, hlist]
        have hsocket : (s.ds.shrinkFront tmpLen).mSocket = none := by
          simp [DataSocket.shrinkFront, hlist, hnone]
        simp only [eraseTurn, hlist, if_pos hlt]
        cases full with
        | false => exact .of_fault (by simp [afterErase, hsocket])
        | true =>
            exact @faults_of_turn path { s with ds := s.ds.shrinkFront tmpLen, pc := .turn }
              hfault hsocket (hle.shrinkFront tmpLen) rfl _ _ hshrink (Nat.sub_pos_of_lt hlt)
      · -- The packet is erased, by way of its callback if it has one.
        have hafter : Faults path
            (s.store (s.ds.eraseFront, []) (.erase (tmpLen - packet.left) full)) := by
          have herase : s.ds.eraseFront.mSendList = rest := by simp [DataSocket.eraseFront, hlist]
          refine @ih (s.store (s.ds.eraseFront, []) (.erase (tmpLen - packet.left) full)) hfault
            hstale hnone (herase.symm ▸ hrest) (tmpLen - packet.left) rfl ?_ herase
          intro hfull
          have hlong := hbad hfull
          show _ < leftSum s.ds.eraseFront.mSendList
          rw [herase]
          omega
        simp only [eraseTurn, hlist, if_neg hlt]
        split
        next =>
          have hreturn : next path { s with pc := .callback (tmpLen - packet.left) full }
              .callbackReturn = some (s.store (s.ds.eraseFront, []) (.erase (tmpLen - packet.left) full)) := by
            simp [next, hfault, returned, hstale, store]
          exact .of_next hreturn hafter
        next => exact hafter

/-- Only a running callback uses the session. -/
theorem callback_of_op {o : CallbackOp} (h : (system path).next s (.op o) = some s') :
    ∃ tmpLen full, s.pc = .callback tmpLen full ∧ s' = s.runOp tmpLen full o := by
  cases hpc : s.pc with
  | callback tmpLen full =>
      simp only [system, next, hpc, Option.ite_none_left_eq_some, Option.some.injEq] at h
      exact ⟨tmpLen, full, rfl, h.2.symm⟩
  | turn | erase _ _ | done => simp [system, next, hpc] at h

/-- A callback that has inserted into the list returns to a stale iterator. -/
theorem faults_of_stale (hfault : s.fault = none) (hstale : s.stale = true) {tmpLen : ℕ}
    {full : Bool} (hpc : s.pc = .callback tmpLen full) : Faults path s := by
  have hreturn : s.next path .callbackReturn = some { s with fault := some .staleIterator } := by
    simp [next, hfault, hpc, returned, hstale]
  exact .of_next hreturn (.of_fault (by simp))

/-- A callback that disconnects although the list is not covered. -/
theorem Inv.faults_of_disConnect (inv : s.Inv) {tmpLen : ℕ} {full : Bool}
    (hpc : s.pc = .callback tmpLen full)
    (hno : s.considerate (.op .postDisConnect) = false) :
    Faults path (s.runOp tmpLen full .postDisConnect) := by
  have hclosed : s.ds.postDisConnect.1.mSocket = none := by
    have hfinal := inv.final
    cases hsocket : s.ds.mSocket <;>
      simp [DataSocket.postDisConnect, DataSocket.procCloseInLoop, DataSocket.onClose,
        DataSocket.closeSocket, hsocket, hfinal]
  have hlist : s.ds.postDisConnect.1.mSendList = s.ds.mSendList :=
    Flush.mSendList_procCloseInLoop s.ds
  have hbad : full = true → tmpLen < leftSum s.ds.mSendList.tail := by
    rintro rfl
    simp only [considerate, hpc, Bool.or_eq_false_iff, Bool.true_and, decide_eq_false_iff_not,
      Nat.not_le] at hno
    exact hno.2
  have hreturn : (s.runOp tmpLen full .postDisConnect).next path .callbackReturn =
      some ((s.runOp tmpLen full .postDisConnect).store
        (s.ds.postDisConnect.1.eraseFront, []) (.erase tmpLen full)) := by
    simp [Reentry.next, runOp, store, inv.fault, returned, inv.stale]
  refine .of_next hreturn (faults_of_erase inv.fault inv.stale hclosed ?_ rfl ?_)
  · show LeftLe s.ds.postDisConnect.1.mSendList.tail
    exact hlist.symm ▸ inv.leftLe.tail
  · intro hfull
    show tmpLen < leftSum s.ds.postDisConnect.1.mSendList.tail
    rw [hlist]
    exact hbad hfull

/-- **When complete callbacks are safe.**  In every flush, by either function and whatever
the kernel returns, whose callbacks are considerate, neither a null `mSocket` nor a stale
iterator is used; and from every state of such a flush a step that is not considerate leads
on to a fault. -/
theorem callbacks_reentrancy_safe (path : FlushPath)
    (h : ((system path).restrict considerate).Reachable s) :
    s.fault = none ∧ ∀ action s', (system path).next s action = some s' →
      s.considerate action = false →
      ∃ actions t, (system path).run s' actions = some t ∧ t.fault ≠ none := by
  have inv := inv_of_reachable h
  refine ⟨inv.fault, fun action s' hnext hno => ?_⟩
  obtain ⟨o, rfl⟩ : ∃ o, action = .op o := by
    cases action with
    | op o => exact ⟨o, rfl⟩
    | leave | send _ | erase | callbackReturn => cases hno
  obtain ⟨tmpLen, full, hpc, rfl⟩ := callback_of_op hnext
  cases o with
  | send packet callback => exact faults_of_stale inv.fault rfl rfl
  | postDisConnect => exact inv.faults_of_disConnect hpc hno

/-- A socket with two packets, which both have a callback. -/
def twoCallbacks : DataSocket :=
  { Flush.idleSocket with mSendList := [⟨[1, 2], 2, true⟩, ⟨[3], 1, true⟩] }

theorem init_twoCallbacks (path : FlushPath) : (system path).init (start twoCallbacks) :=
  ⟨twoCallbacks, rfl, rfl, rfl, by simp [LeftLe, twoCallbacks], rfl⟩

/-- Everything is accepted, and the first callback disconnects. -/
theorem callbacks_reentrancy_safe_disconnect :
    ∃ s, ((system .quick).restrict considerate).run (start twoCallbacks)
        [.send (.accepted 3), .erase, .op .postDisConnect, .callbackReturn, .erase, .callbackReturn,
          .erase, .leave] = some s ∧
      s.ds.mSocket = none ∧ s.ds.mSendList = [] ∧ s.fault = none := by
  have hsafe (s : Reentry) (hrun : ((system .quick).restrict considerate).run (start twoCallbacks)
      [.send (.accepted 3), .erase, .op .postDisConnect, .callbackReturn, .erase, .callbackReturn,
        .erase, .leave] = some s) : s.fault = none :=
    (callbacks_reentrancy_safe .quick (System.reachable_of_run (init_twoCallbacks .quick) hrun)).1
  exact ⟨_, rfl, rfl, rfl, hsafe _ rfl⟩

/-- A callback sends, and the packet is erased through a stale iterator.  A callback
disconnects after a partial write, and `checkWrite` uses the null socket. -/
theorem not_callbacks_reentrancy_safe_send :
    (∃ s, (system .quick).Reachable s ∧ s.fault = some .staleIterator) ∧
      ∃ s, (system .normal).Reachable s ∧ s.fault = some .nullSocket := by
  have hsend : (system .quick).run (start twoCallbacks)
      [.send (.accepted 3), .erase, .op (.send [7] false), .callbackReturn] = some _ := rfl
  have hdisConnect : (system .normal).run (start twoCallbacks)
      [.send (.accepted 2), .erase, .op .postDisConnect, .callbackReturn, .erase] = some _ := rfl
  exact ⟨⟨_, System.reachable_of_run (init_twoCallbacks .quick) hsend, rfl⟩,
    ⟨_, System.reachable_of_run (init_twoCallbacks .normal) hdisConnect, rfl⟩⟩

end Reentry

end Brynet
