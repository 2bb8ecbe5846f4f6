import Brynet.Lib.Transition
import Brynet.Net.DataSocket

/-!
# The receive stream of a `DataSocket`

`recv()` as a transition system: one socket, called any number of times, with
any results of `::recv` and any data callback.  Beside the socket the state
records what the kernel has handed over so far (`received`) and how many of
those bytes the callback has taken (`consumed`).

`Receiver.Inv` says that the buffer holds exactly the received bytes that were
not consumed.  It survives growing, because the grown buffer is filled from the
readable bytes of the old one, and compaction, because moving to the head keeps
them; the sizes only ever pass through `growRecvBuffer`, which checks the bound.
-/

namespace Brynet

open MachineInt Memory Transition

/-- Where the loop thread is: outside `recv`, at the head of its loop, or inside
the data callback that was handed `view` after `retlen` of `tryRecvLen` bytes
arrived. -/
inductive RecvPc
  | outside
  | loop
  | callback (view : List UInt8) (retlen tryRecvLen : ℕ)
deriving Repr, DecidableEq

structure Receiver where
  ds : DataSocket
  pc : RecvPc
  received : List UInt8
  consumed : ℕ
deriving Repr, DecidableEq

/-- The choices of the environment: `recv` is called, its loop finds nothing to
do, `::recv` returns, or the callback returns, having closed the socket or not. -/
inductive RecvAction
  | call
  | leave
  | result (r : RecvResult)
  | returned (proclen : ℕ) (closes : Bool)
deriving Repr, DecidableEq

namespace Receiver

/-- The end of a turn of the loop. -/
def endTurn (s : Receiver) (turn : DataSocket × Bool) : Receiver :=
  { s with ds := turn.1, pc := if turn.2 then .loop else .outside }

/-- `::recv` has returned with `r` after being asked for `tryRecvLen` bytes. -/
def onResult (malloc : Allocator) (s : Receiver) (tryRecvLen : ℕ) :
    RecvResult → Option Receiver
  | .data bytes =>
      (s.ds.recvArrived malloc bytes).map fun ds =>
        let s := { s with ds := ds, received := s.received ++ bytes }
        if ds.mDataCallback then
          { s with pc := .callback ds.recvView bytes.length tryRecvLen }
        else s.endTurn (ds.recvUncalled bytes.length tryRecvLen)
  | .wouldBlock => some { s with pc := .outside }
  | .eof | .error => some { s with ds := s.ds.procCloseInLoop.1, pc := .outside }

def next (malloc : Allocator) (s : Receiver) (action : RecvAction) : Option Receiver :=
  match s.pc, action with
  | .outside, .call => some { s with pc := .loop }
  | .loop, .leave => if s.ds.tryRecvLen.isNone then some { s with pc := .outside } else none
  | .loop, .result r =>
      match s.ds.tryRecvLen with
      | some tryRecvLen => if r.valid tryRecvLen then s.onResult malloc tryRecvLen r else none
      | none => none
  | .callback _ retlen tryRecvLen, .returned proclen closes =>
      let ds := if closes then s.ds.postDisConnect.1 else s.ds
      let taken := if proclen ≤ ds.mRecvBuffer.oxBufferGetreadvalidcount then proclen else 0
      some ({ s with consumed := s.consumed + taken }.endTurn
        (ds.recvReturned proclen retlen tryRecvLen))
  | _, _ => none

/-- A fresh socket with a data callback or without one. -/
def start (malloc : Allocator) (socket : Sock) (maxRecvBufferSize : ℕ) (callback : Bool) :
    Option Receiver :=
  (DataSocket.new malloc socket maxRecvBufferSize).map fun ds =>
    { ds := { ds with mDataCallback := callback }, pc := .outside, received := [], consumed := 0 }

def system (malloc : Allocator) (maxRecvBufferSize : ℕ) : System Receiver RecvAction where
  init s := ∃ socket callback, start malloc socket maxRecvBufferSize callback = some s
  next := next malloc

/-! ## The bytes a socket holds -/

end Receiver

/-- The receive buffer of `ds` is well formed, within its bounds, and its
readable bytes are `content`. -/
structure DataSocket.Holds (ds : DataSocket) (maxRecvBufferSize : ℕ) (content : List UInt8) :
    Prop where
  wf : ds.mRecvBuffer.Wf
  maxSize : ds.mMaxRecvBufferSize = maxRecvBufferSize
  dataLen_lt : ds.mRecvBuffer.dataLen < 2 ^ 63
  dataLen_le : ds.mRecvBuffer.dataLen ≤ max 17408 maxRecvBufferSize
  readable : ds.mRecvBuffer.readable = content

/-- A receive buffer that is full of unconsumed bytes cannot grow. -/
def DataSocket.Grown (ds : DataSocket) (maxRecvBufferSize : ℕ) : Prop :=
  ds.mRecvBuffer.readable.length = ds.mRecvBuffer.dataLen →
    maxRecvBufferSize < ds.mRecvBuffer.dataLen + 1024

/-- The kernel never returns more bytes than there is room for, also when the
conversion of the room to `int` is negative or drops its upper bits. -/
theorem RecvResult.length_le_of_valid {bytes : List UInt8} {tryRecvLen : ℕ}
    (h : (RecvResult.data bytes).valid tryRecvLen = true) : bytes.length ≤ tryRecvLen := by
  simp only [RecvResult.valid, Bool.and_eq_true, decide_eq_true_eq, maxRwCount] at h
  obtain ⟨⟨-, hrequest⟩, hmax⟩ := h
  unfold toInt32 at hrequest
  split at hrequest
  · rw [ofInt32_natCast (by omega)] at hrequest
    exact hrequest.trans (Nat.mod_le _ _)
  · calc bytes.length ≤ 0x7ffff000 := of_decide_eq_true hmax
      _ ≤ 2 ^ 31 := by decide
      _ ≤ tryRecvLen % 2 ^ 32 := not_lt.mp ‹_›
      _ ≤ tryRecvLen := Nat.mod_le _ _

/-- The closing of a socket does not touch its buffer. -/
theorem DataSocket.procCloseInLoop_mRecvBuffer (ds : DataSocket) :
    ds.procCloseInLoop.1.mRecvBuffer = ds.mRecvBuffer ∧
      ds.procCloseInLoop.1.mMaxRecvBufferSize = ds.mMaxRecvBufferSize := by
  unfold procCloseInLoop onClose closeSocket
  split
  · exact ⟨rfl, rfl⟩
  · split
    · exact ⟨rfl, rfl⟩
    · split <;> exact ⟨rfl, rfl⟩

namespace DataSocket.Holds

variable {malloc : Allocator} {ds ds' : DataSocket} {maxRecvBufferSize : ℕ}
  {content bytes : List UInt8}

theorem view_eq (h : ds.Holds maxRecvBufferSize content) : ds.recvView = content := by
  rw [← h.readable, DataSocket.recvView, h.wf.getreadvalidcount]
  rfl

theorem readvalidcount (h : ds.Holds maxRecvBufferSize content) :
    ds.mRecvBuffer.oxBufferGetreadvalidcount = content.length := by
  rw [h.wf.getreadvalidcount, ← h.wf.length_readable, h.readable]

theorem of_new {socket : Sock} (h : DataSocket.new malloc socket maxRecvBufferSize = some ds) :
    ds.Holds maxRecvBufferSize [] := by
  simp only [DataSocket.new, Option.map_eq_some_iff] at h
  obtain ⟨buffer, hbuffer, rfl⟩ := h
  obtain ⟨hwf, hreadable, hlen, -, hlt⟩ := Buffer.oxBufferNew_spec hbuffer
  refine ⟨hwf, rfl, by simpa [hlen] using hlt, ?_, hreadable⟩
  show buffer.dataLen ≤ _
  rw [hlen]
  exact Nat.le_max_left _ _

/-- Growing copies the readable bytes into a larger buffer, which the bound
still admits. -/
theorem grow (h : ds.Holds maxRecvBufferSize content)
    (hgrow : ds.growRecvBuffer malloc = some ds') :
    ds'.Holds maxRecvBufferSize content ∧ ds'.Grown maxRecvBufferSize := by
  have hlt := h.dataLen_lt
  have hsize : sizeAdd ds.mRecvBuffer.oxBufferGetsize growBufferSize =
      ds.mRecvBuffer.dataLen + 1024 :=
    sizeAdd_eq (by simp only [Buffer.oxBufferGetsize, growBufferSize, sizeMod]; omega)
  simp only [growRecvBuffer, hsize] at hgrow
  split at hgrow
  · rename_i hmax
    rw [Option.map_eq_some_iff] at hgrow
    obtain ⟨newBuffer, hnew, rfl⟩ := hgrow
    obtain ⟨hwf, hempty, hlen, hwrite, hnewlt⟩ := Buffer.oxBufferNew_spec hnew
    have hview : slice ds.mRecvBuffer.data ds.mRecvBuffer.readPos
        ds.mRecvBuffer.oxBufferGetreadvalidcount = content := h.view_eq
    have hcontent : content.length ≤ ds.mRecvBuffer.dataLen := by
      have hcount := h.wf.length_readable
      have hbound := h.wf.writePos_le
      rw [h.readable] at hcount
      omega
    have hfit : content.length ≤ newBuffer.dataLen - (newBuffer.writePos - newBuffer.readPos) := by
      omega
    obtain ⟨hwf', hreadable, hlen'⟩ := hwf.write hfit
    rw [hview]
    refine ⟨⟨hwf', h.maxSize, ?_, ?_, ?_⟩, fun hfull => ?_⟩
    · show (newBuffer.oxBufferWrite content).1.dataLen < 2 ^ 63
      rw [hlen', hlen]
      exact hnewlt
    · show (newBuffer.oxBufferWrite content).1.dataLen ≤ _
      rw [hlen', hlen]
      exact (h.maxSize ▸ hmax).trans (Nat.le_max_right _ _)
    · show (newBuffer.oxBufferWrite content).1.readable = content
      rw [hreadable, hempty, List.nil_append]
    · -- The new buffer is larger than what was copied into it.
      change (newBuffer.oxBufferWrite content).1.readable.length =
        (newBuffer.oxBufferWrite content).1.dataLen at hfull
      rw [hreadable, hempty, List.nil_append, hlen', hlen] at hfull
      omega
  · rename_i hmax
    cases hgrow
    exact ⟨h, fun _ => h.maxSize ▸ Nat.lt_of_not_le hmax⟩

/-- Arrived bytes are appended, whether or not the buffer grows for them.  It does if they
fill it and it can. -/
theorem arrived (h : ds.Holds maxRecvBufferSize content) {tryRecvLen : ℕ}
    (htry : ds.tryRecvLen = some tryRecvLen) (hlen : bytes.length ≤ tryRecvLen)
    (harrived : ds.recvArrived malloc bytes = some ds') :
    ds'.Holds maxRecvBufferSize (content ++ bytes) ∧ ds'.Grown maxRecvBufferSize := by
  simp only [DataSocket.tryRecvLen, Option.ite_none_right_eq_some, Option.some.injEq] at htry
  obtain ⟨hwf, hreadable, hdata, -⟩ := h.wf.store (htry.2.symm ▸ hlen)
  have hstored : { ds with
      mRecvBuffer := (ds.mRecvBuffer.store bytes).oxBufferAddwritepos bytes.length }.Holds
        maxRecvBufferSize (content ++ bytes) :=
    ⟨hwf, h.maxSize, hdata ▸ h.dataLen_lt, hdata ▸ h.dataLen_le, h.readable ▸ hreadable⟩
  simp only [recvArrived, Option.map_eq_some_iff] at harrived
  obtain ⟨grown, hgrown, hmark⟩ := harrived
  have hholds : grown.Holds maxRecvBufferSize (content ++ bytes) ∧
      grown.Grown maxRecvBufferSize := by
    split at hgrown
    · exact hstored.grow hgrown
    · rename_i hroom
      cases hgrown
      refine ⟨hstored, fun hfull => absurd ?_ hroom⟩
      rw [hwf.getreadvalidcount, ← hwf.length_readable]
      exact hfull
  rw [← hmark]
  split
  · exact ⟨⟨hholds.1.wf, hholds.1.maxSize, hholds.1.dataLen_lt, hholds.1.dataLen_le,
      hholds.1.readable⟩, hholds.2⟩
  · exact hholds

theorem adjust (h : ds.Holds maxRecvBufferSize content) :
    ds.recvAdjust.Holds maxRecvBufferSize content := by
  unfold recvAdjust
  split
  · obtain ⟨hwf, hreadable, -⟩ := h.wf.adjusttoHead
    have hdata := ds.mRecvBuffer.dataLen_oxBufferAdjusttoHead
    exact ⟨hwf, h.maxSize, hdata ▸ h.dataLen_lt, hdata ▸ h.dataLen_le, h.readable ▸ hreadable⟩
  · exact h

/-- The callback's count is taken off the front, or ignored if too large. -/
theorem returned (h : ds.Holds maxRecvBufferSize content) (proclen retlen tryRecvLen : ℕ) :
    (ds.recvReturned proclen retlen tryRecvLen).1.Holds maxRecvBufferSize
      (content.drop (if proclen ≤ ds.mRecvBuffer.oxBufferGetreadvalidcount then proclen else 0)) := by
  unfold recvReturned
  split
  · rename_i hle
    obtain ⟨hwf, hreadable, hdata⟩ := h.wf.addreadpos hle
    apply adjust
    exact ⟨hwf, h.maxSize, hdata ▸ h.dataLen_lt, hdata ▸ h.dataLen_le, h.readable ▸ hreadable⟩
  · exact h

theorem procCloseInLoop (h : ds.Holds maxRecvBufferSize content) :
    ds.procCloseInLoop.1.Holds maxRecvBufferSize content := by
  obtain ⟨hbuffer, hmax⟩ := ds.procCloseInLoop_mRecvBuffer
  exact ⟨hbuffer ▸ h.wf, hmax ▸ h.maxSize, hbuffer ▸ h.dataLen_lt, hbuffer ▸ h.dataLen_le,
    hbuffer ▸ h.readable⟩

end DataSocket.Holds

/-! ## The invariant over runs -/

namespace Receiver

variable {malloc : Allocator} {maxRecvBufferSize : ℕ} {s s' : Receiver}

/-- What an action does, with the conditions under which it happens. -/
theorem next_cases {action : RecvAction} (h : s.next malloc action = some s') :
    (s.pc = .outside ∧ action = .call ∧ s' = { s with pc := .loop }) ∨
    (s.pc = .loop ∧ action = .leave ∧ s.ds.tryRecvLen = none ∧ s' = { s with pc := .outside }) ∨
    (∃ r tryRecvLen, s.pc = .loop ∧ action = .result r ∧ s.ds.tryRecvLen = some tryRecvLen ∧
      r.valid tryRecvLen = true ∧ s.onResult malloc tryRecvLen r = some s') ∨
    (∃ view retlen tryRecvLen proclen closes ds, s.pc = .callback view retlen tryRecvLen ∧
      action = .returned proclen closes ∧ ds = (if closes then s.ds.postDisConnect.1 else s.ds) ∧
      s' = { s with consumed := s.consumed +
          if proclen ≤ ds.mRecvBuffer.oxBufferGetreadvalidcount then proclen else 0 }.endTurn
        (ds.recvReturned proclen retlen tryRecvLen)) := by
  unfold next at h
  split at h
  next hpc => exact .inl ⟨hpc, rfl, (Option.some.inj h).symm⟩
  next hpc =>
    split at h
    next htry => exact .inr (.inl ⟨hpc, rfl, by simpa using htry, (Option.some.inj h).symm⟩)
    next => cases h
  next r hpc =>
    split at h
    next tryRecvLen htry =>
      split at h
      next hvalid => exact .inr (.inr (.inl ⟨r, tryRecvLen, hpc, rfl, htry, hvalid, h⟩))
      next => cases h
    next => cases h
  next view retlen tryRecvLen proclen closes hpc =>
    exact .inr (.inr (.inr ⟨view, retlen, tryRecvLen, proclen, closes, _, hpc, rfl, rfl,
      (Option.some.inj h).symm⟩))
  next => cases h

/-- The socket holds the received bytes that were not consumed, and a running
callback was handed exactly them. -/
structure Inv (maxRecvBufferSize : ℕ) (s : Receiver) : Prop where
  holds : s.ds.Holds maxRecvBufferSize (s.received.drop s.consumed)
  consumed_le : s.consumed ≤ s.received.length
  view : ∀ view retlen tryRecvLen, s.pc = .callback view retlen tryRecvLen →
    view = s.received.drop s.consumed

/-- Outside a callback the invariant is about the socket alone. -/
theorem Inv.of_holds (hholds : s.ds.Holds maxRecvBufferSize (s.received.drop s.consumed))
    (hle : s.consumed ≤ s.received.length) (hpc : s.pc = .outside ∨ s.pc = .loop) :
    s.Inv maxRecvBufferSize := by
  refine ⟨hholds, hle, ?_⟩
  intro view retlen tryRecvLen hcallback
  rcases hpc with hpc | hpc <;> rw [hpc] at hcallback <;> cases hcallback

theorem endTurn_pc (s : Receiver) (turn : DataSocket × Bool) :
    (s.endTurn turn).pc = .outside ∨ (s.endTurn turn).pc = .loop := by
  cases h : turn.2 <;> simp [endTurn, h]

theorem Inv.onResult (inv : s.Inv maxRecvBufferSize) {tryRecvLen : ℕ} {r : RecvResult}
    (htry : s.ds.tryRecvLen = some tryRecvLen) (hvalid : r.valid tryRecvLen = true)
    (hnext : s.onResult malloc tryRecvLen r = some s') : s'.Inv maxRecvBufferSize := by
  cases r with
  | data bytes =>
      simp only [Receiver.onResult, Option.map_eq_some_iff] at hnext
      obtain ⟨ds, harrived, rfl⟩ := hnext
      obtain ⟨hholds, -⟩ := inv.holds.arrived htry (RecvResult.length_le_of_valid hvalid) harrived
      rw [← List.drop_append_of_le_length inv.consumed_le] at hholds
      have hle : s.consumed ≤ (s.received ++ bytes).length := by
        rw [List.length_append]
        exact inv.consumed_le.trans (Nat.le_add_right _ _)
      split
      · refine ⟨hholds, hle, ?_⟩
        intro view retlen tryRecvLen' hpc
        injection hpc with hview
        rw [← hview]
        exact hholds.view_eq
      · exact .of_holds hholds.adjust hle (endTurn_pc _ _)
  | wouldBlock =>
      cases hnext
      exact .of_holds inv.holds inv.consumed_le (.inl rfl)
  | eof =>
      cases hnext
      exact .of_holds inv.holds.procCloseInLoop inv.consumed_le (.inl rfl)
  | error =>
      cases hnext
      exact .of_holds inv.holds.procCloseInLoop inv.consumed_le (.inl rfl)

theorem Inv.returned (inv : s.Inv maxRecvBufferSize) {ds : DataSocket}
    (hds : ds.Holds maxRecvBufferSize (s.received.drop s.consumed))
    (proclen retlen tryRecvLen : ℕ) :
    ({ s with consumed := s.consumed +
        if proclen ≤ ds.mRecvBuffer.oxBufferGetreadvalidcount then proclen else 0 }.endTurn
      (ds.recvReturned proclen retlen tryRecvLen)).Inv maxRecvBufferSize := by
  have hholds := hds.returned proclen retlen tryRecvLen
  rw [List.drop_drop] at hholds
  refine .of_holds hholds ?_ (endTurn_pc _ _)
  show s.consumed + _ ≤ s.received.length
  have hle := inv.consumed_le
  have hcount := hds.readvalidcount
  rw [List.length_drop] at hcount
  split <;> omega

theorem Inv.next (inv : s.Inv maxRecvBufferSize) {action : RecvAction}
    (hnext : s.next malloc action = some s') : s'.Inv maxRecvBufferSize := by
  obtain ⟨-, -, rfl⟩ | ⟨-, -, -, rfl⟩ | ⟨r, tryRecvLen, -, -, htry, hvalid, hresult⟩ |
    ⟨view, retlen, tryRecvLen, proclen, closes, ds, -, -, rfl, rfl⟩ := next_cases hnext
  · exact .of_holds inv.holds inv.consumed_le (.inr rfl)
  · exact .of_holds inv.holds inv.consumed_le (.inl rfl)
  · exact inv.onResult htry hvalid hresult
  · cases closes with
    | true => exact inv.returned inv.holds.procCloseInLoop proclen retlen tryRecvLen
    | false => exact inv.returned inv.holds proclen retlen tryRecvLen

theorem inv_of_reachable (h : (system malloc maxRecvBufferSize).Reachable s) :
    s.Inv maxRecvBufferSize := by
  refine h.invariant ?_ fun s a s' _ inv hnext => inv.next hnext
  rintro s ⟨socket, callback, hstart⟩
  simp only [start, Option.map_eq_some_iff] at hstart
  obtain ⟨ds, hds, rfl⟩ := hstart
  have hholds := DataSocket.Holds.of_new hds
  exact .of_holds ⟨hholds.wf, hholds.maxSize, hholds.dataLen_lt, hholds.dataLen_le,
    hholds.readable⟩ (Nat.le_refl _) (.inl rfl)

/-- **Receive-stream integrity.**  Every data callback is handed the received
bytes from the last consumed one on, and the positions of the buffer stay in
order and within the bound. -/
theorem recv_stream_integrity (malloc : Allocator) (maxRecvBufferSize : ℕ) (s : Receiver)
    (h : (system malloc maxRecvBufferSize).Reachable s) :
    (∀ view retlen tryRecvLen, s.pc = .callback view retlen tryRecvLen →
      view = s.received.drop s.consumed) ∧
    s.ds.mRecvBuffer.readPos ≤ s.ds.mRecvBuffer.writePos ∧
    s.ds.mRecvBuffer.writePos ≤ s.ds.mRecvBuffer.dataLen ∧
    s.ds.mRecvBuffer.dataLen ≤ max 17408 maxRecvBufferSize := by
  have inv := inv_of_reachable h
  exact ⟨inv.view, inv.holds.wf.readPos_le, inv.holds.wf.writePos_le, inv.holds.dataLen_le⟩

/-- Three bytes arrive on a fresh socket and are handed to its callback. -/
theorem recv_stream_integrity_first_bytes :
    ∃ s, (system .unlimited 20000).Reachable s ∧
      s.pc = .callback [1, 2, 3] 3 17408 ∧ [1, 2, 3] = s.received.drop s.consumed := by
  have hrun : ((start .unlimited 5 20000 true).bind fun s =>
      (system .unlimited 20000).run s [.call, .result (.data [1, 2, 3])]).map Receiver.pc =
      some (.callback [1, 2, 3] 3 17408) := by decide +kernel
  rw [Option.map_eq_some_iff] at hrun
  obtain ⟨s, hs, hpc⟩ := hrun
  rw [Option.bind_eq_some_iff] at hs
  obtain ⟨first, hfirst, hactions⟩ := hs
  have hinit : (system .unlimited 20000).init first := ⟨5, true, hfirst⟩
  have hreach := System.reachable_of_run hinit hactions
  exact ⟨s, hreach, hpc, (recv_stream_integrity _ _ s hreach).1 _ _ _ hpc⟩

end Receiver

end Brynet
