import Brynet.Net.Recv

/-!
# The loop of `recv` drains the descriptor

The descriptor is registered with `EPOLLET`: once `recv` has left its loop, the next event
comes only when further bytes arrive.  So the loop may stop only if it has seen the end of
what there is to read, or if there is no room for more and none can be made.

There is no room if the bytes stand at the end of the buffer or fill it.  The first is
repaired at the end of a turn, by moving them to the head, and the second before the
callback, by growing.  What carries this from one turn to the next, and from one call of
`recv` to the next, is `Roomy`.
-/

namespace Brynet

open MachineInt Memory Transition

namespace DataSocket

variable {malloc : Allocator} {ds ds' : DataSocket} {maxRecvBufferSize : ℕ}
  {content : List UInt8}

/-- A receive buffer without room is full of unconsumed bytes and cannot grow. -/
def Roomy (ds : DataSocket) (maxRecvBufferSize : ℕ) : Prop :=
  ds.mRecvBuffer.oxBufferGetwritevalidcount = 0 →
    ds.mRecvBuffer.readable.length = ds.mRecvBuffer.dataLen ∧
      maxRecvBufferSize < ds.mRecvBuffer.dataLen + 1024

/-- `mIsPostFinalClose` is set when the socket is closed, and only then. -/
theorem mIsPostFinalClose_procCloseInLoop (h : ds.mIsPostFinalClose = ds.mSocket.isNone) :
    ds.procCloseInLoop.1.mIsPostFinalClose = ds.procCloseInLoop.1.mSocket.isNone := by
  cases hsocket : ds.mSocket <;>
    simp [procCloseInLoop, onClose, closeSocket, hsocket, h]

theorem Quiet.mIsPostFinalClose (hquiet : Quiet ds ds')
    (h : ds.mIsPostFinalClose = ds.mSocket.isNone) :
    ds'.mIsPostFinalClose = ds'.mSocket.isNone := by
  obtain ⟨buffer, recvData, rfl⟩ := hquiet
  exact h

/-! ## What a turn does to the room -/

theorem Grown.consume (h : ds.Grown maxRecvBufferSize) (wf : ds.mRecvBuffer.Wf) {n : ℕ}
    (hn : n ≤ ds.mRecvBuffer.oxBufferGetreadvalidcount) :
    { ds with mRecvBuffer := ds.mRecvBuffer.oxBufferAddreadpos n }.Grown maxRecvBufferSize := by
  obtain ⟨-, hreadable, hdataLen⟩ := wf.addreadpos hn
  intro hfull
  simp only [hreadable, hdataLen, List.length_drop] at hfull ⊢
  -- Only a callback that takes nothing leaves the buffer full.
  have hlen := wf.length_readable
  have hbound := wf.writePos_le
  exact h (by omega)

/-- Moving to the head leaves a buffer without room only if it is full. -/
theorem Grown.roomy_adjust (h : ds.Grown maxRecvBufferSize) (wf : ds.mRecvBuffer.Wf) :
    ds.recvAdjust.Roomy maxRecvBufferSize := by
  unfold recvAdjust
  split
  next =>
    obtain ⟨hwf, hreadable, hhead⟩ := wf.adjusttoHead
    have hdataLen := ds.mRecvBuffer.dataLen_oxBufferAdjusttoHead
    have hlen := hwf.length_readable
    have hbound := hwf.writePos_le
    intro hroom
    change ds.mRecvBuffer.oxBufferAdjusttoHead.oxBufferGetwritevalidcount = 0 at hroom
    rw [hwf.getwritevalidcount] at hroom
    show ds.mRecvBuffer.oxBufferAdjusttoHead.readable.length =
      ds.mRecvBuffer.oxBufferAdjusttoHead.dataLen ∧
        maxRecvBufferSize < ds.mRecvBuffer.oxBufferAdjusttoHead.dataLen + 1024
    rw [hdataLen] at hroom hbound ⊢
    rw [hhead] at hlen
    have hfull : ds.mRecvBuffer.oxBufferAdjusttoHead.readable.length =
        ds.mRecvBuffer.dataLen := by omega
    exact ⟨hfull, h (hreadable ▸ hfull)⟩
  next hroom =>
    intro hzero
    exact absurd (.inl hzero) hroom

end DataSocket

/-! ## The invariant over runs -/

/-- The last `::recv` of a call of `recv`: how many bytes it was asked for, and what it
returned. -/
abbrev LastRecv := Option (ℤ × RecvResult)

namespace Receiver

variable {malloc : Allocator} {maxRecvBufferSize : ℕ}

/-- What an action makes of the record of the last `::recv`. -/
def recordRecv (s : Receiver) (action : RecvAction) (last : LastRecv) : LastRecv :=
  match action with
  | .call => none
  | .result r => s.ds.tryRecvLen.map fun tryRecvLen => (toInt32 tryRecvLen, r)
  | .leave | .returned _ _ => last

/-- The callback returns no more than the length it was given. -/
def honest (s : Receiver) (action : RecvAction) : Bool :=
  match s.pc, action with
  | .callback view _ _, .returned proclen _ => decide (proclen ≤ view.length)
  | _, _ => true

/-- `recv` with honest callbacks, and the record of the last `::recv`. -/
def drainSystem (malloc : Allocator) (maxRecvBufferSize : ℕ) :
    System (Receiver × LastRecv) RecvAction :=
  ((system malloc maxRecvBufferSize).restrict honest).record none recordRecv

/-- Between two turns the buffer has room or is full for good; inside a callback a full
buffer has already grown as far as it can, and the record is about the bytes that are
handed over. -/
structure Drains (maxRecvBufferSize : ℕ) (p : Receiver × LastRecv) : Prop where
  inv : p.1.Inv maxRecvBufferSize
  closed : p.1.ds.mIsPostFinalClose = p.1.ds.mSocket.isNone
  roomy : p.1.pc = .outside ∨ p.1.pc = .loop → p.1.ds.Roomy maxRecvBufferSize
  callback : ∀ view retlen tryRecvLen, p.1.pc = .callback view retlen tryRecvLen →
    p.1.ds.Grown maxRecvBufferSize ∧
      ∃ bytes : List UInt8, p.2 = some (toInt32 tryRecvLen, .data bytes) ∧ bytes.length = retlen

/-- The reasons for which `recv` may return and leave the socket open. -/
def Drained (maxRecvBufferSize : ℕ) (s : Receiver) (last : LastRecv) : Prop :=
  (∃ requested, last = some (requested, .wouldBlock)) ∨
  (∃ (requested : ℤ) (bytes : List UInt8), last = some (requested, .data bytes) ∧
    (bytes.length : ℤ) < requested) ∨
  ((s.received.drop s.consumed).length = s.ds.mRecvBuffer.dataLen ∧
    maxRecvBufferSize < s.ds.mRecvBuffer.dataLen + 1024)

variable {s s' : Receiver} {p p' : Receiver × LastRecv} {action : RecvAction} {last : LastRecv}

/-- The end of a turn, after the buffer was given its chance to grow. -/
theorem Drains.endTurn {ds : DataSocket} {bytes : List UInt8} {tryRecvLen : ℕ}
    (hgrown : ds.Grown maxRecvBufferSize) (wf : ds.mRecvBuffer.Wf)
    (hclosed : ds.mIsPostFinalClose = ds.mSocket.isNone)
    (hinv : (s.endTurn (ds.recvAdjust, !decide ((bytes.length : ℤ) < toInt32 tryRecvLen))).Inv
      maxRecvBufferSize) :
    let s' := s.endTurn (ds.recvAdjust, !decide ((bytes.length : ℤ) < toInt32 tryRecvLen))
    let last' : LastRecv := some (toInt32 tryRecvLen, .data bytes)
    Drains maxRecvBufferSize (s', last') ∧
      (s'.pc = .outside → Drained maxRecvBufferSize s' last') := by
  intro s' last'
  have hpc := endTurn_pc s (ds.recvAdjust, !decide ((bytes.length : ℤ) < toInt32 tryRecvLen))
  refine ⟨⟨hinv, ds.quiet_recvAdjust.mIsPostFinalClose hclosed, fun _ => hgrown.roomy_adjust wf,
    fun view retlen tryRecvLen' hcallback => ?_⟩, fun hout => ?_⟩
  · rcases hpc with hpc | hpc <;> exact absurd (hpc.symm.trans hcallback) (by simp)
  · refine .inr (.inl ⟨_, bytes, rfl, ?_⟩)
    by_contra hlong
    simp [s', Receiver.endTurn, hlong] at hout

/-- Outside a callback only the socket matters, and the record does not. -/
theorem Drains.of_roomy (hinv : s.Inv maxRecvBufferSize)
    (hclosed : s.ds.mIsPostFinalClose = s.ds.mSocket.isNone)
    (hroomy : s.ds.Roomy maxRecvBufferSize) (hpc : s.pc = .outside ∨ s.pc = .loop) :
    Drains maxRecvBufferSize (s, last) := by
  refine ⟨hinv, hclosed, fun _ => hroomy, fun view retlen tryRecvLen hcallback => ?_⟩
  rcases hpc with hpc | hpc <;> exact absurd (hpc.symm.trans hcallback) (by simp)

theorem Drains.onResult {tryRecvLen : ℕ} {r : RecvResult}
    (h : Drains maxRecvBufferSize (s, last)) (hpc : s.pc = .loop)
    (htry : s.ds.tryRecvLen = some tryRecvLen) (hvalid : r.valid tryRecvLen = true)
    (hnext : s.onResult malloc tryRecvLen r = some s') :
    Drains maxRecvBufferSize (s', some (toInt32 tryRecvLen, r)) ∧
      (s'.pc = .outside → s'.ds.mSocket.isSome →
        Drained maxRecvBufferSize s' (some (toInt32 tryRecvLen, r))) := by
  have hinv := h.inv.onResult htry hvalid hnext
  have hroomy : s.ds.Roomy maxRecvBufferSize := h.roomy (.inr hpc)
  -- The end of the stream and an error close the socket.
  have hclose : ∀ {s' : Receiver}, s' = { s with ds := s.ds.procCloseInLoop.1, pc := .outside } →
      s'.Inv maxRecvBufferSize →
      Drains maxRecvBufferSize (s', some (toInt32 tryRecvLen, r)) ∧
        (s'.pc = .outside → s'.ds.mSocket.isSome →
          Drained maxRecvBufferSize s' (some (toInt32 tryRecvLen, r))) := by
    rintro s' rfl hinv
    have hbuffer := s.ds.procCloseInLoop_mRecvBuffer.1
    refine ⟨.of_roomy hinv (DataSocket.mIsPostFinalClose_procCloseInLoop h.closed) ?_ (.inl rfl),
      fun _ hopen => ?_⟩
    · rw [DataSocket.Roomy, hbuffer]
      exact hroomy
    · rw [DataSocket.mSocket_procCloseInLoop h.closed] at hopen
      cases hopen
  cases r with
  | data bytes =>
      simp only [Receiver.onResult, Option.map_eq_some_iff] at hnext
      obtain ⟨ds, harrived, rfl⟩ := hnext
      obtain ⟨hholds, hgrown⟩ :=
        h.inv.holds.arrived htry (RecvResult.length_le_of_valid hvalid) harrived
      have hclosed := (DataSocket.quiet_recvArrived harrived).mIsPostFinalClose h.closed
      split at hinv
      next hcallback =>
        simp only [hcallback, if_true]
        refine ⟨⟨hinv, hclosed, fun hpc => ?_, fun view retlen tryRecvLen' heq => ?_⟩,
          fun hout => ?_⟩
        · rcases hpc with hpc | hpc <;> cases hpc
        · injection heq with _ hretlen htryRecvLen
          rw [← htryRecvLen]
          exact ⟨hgrown, bytes, rfl, hretlen⟩
        · cases hout
      next hcallback =>
        simp only [hcallback, Bool.false_eq_true, if_false]
        obtain ⟨hdrains, hdrained⟩ := Drains.endTurn hgrown hholds.wf hclosed hinv
        exact ⟨hdrains, fun hout _ => hdrained hout⟩
  | wouldBlock =>
      cases hnext
      exact ⟨.of_roomy hinv h.closed hroomy (.inl rfl), fun _ _ => .inl ⟨_, rfl⟩⟩
  | eof => exact hclose (Option.some.inj hnext).symm hinv
  | error => exact hclose (Option.some.inj hnext).symm hinv

theorem Drains.returned {view : List UInt8} {retlen tryRecvLen proclen : ℕ} {closes : Bool}
    {ds : DataSocket} (h : Drains maxRecvBufferSize (s, last))
    (hpc : s.pc = .callback view retlen tryRecvLen) (hle : proclen ≤ view.length)
    (hds : ds = if closes then s.ds.postDisConnect.1 else s.ds)
    (hs' : s' = { s with consumed := s.consumed +
        if proclen ≤ ds.mRecvBuffer.oxBufferGetreadvalidcount then proclen else 0 }.endTurn
      (ds.recvReturned proclen retlen tryRecvLen))
    (hinv : s'.Inv maxRecvBufferSize) :
    Drains maxRecvBufferSize (s', last) ∧
      (s'.pc = .outside → Drained maxRecvBufferSize s' last) := by
  obtain ⟨hgrown, bytes, hlast, rfl⟩ := h.callback view retlen tryRecvLen hpc
  change last = _ at hlast
  -- A callback that closes the socket leaves the buffer as it was.
  have hsame : ds.mRecvBuffer = s.ds.mRecvBuffer ∧
      ds.mIsPostFinalClose = ds.mSocket.isNone := by
    rw [hds]
    cases closes
    · exact ⟨rfl, h.closed⟩
    · exact ⟨s.ds.procCloseInLoop_mRecvBuffer.1,
        DataSocket.mIsPostFinalClose_procCloseInLoop h.closed⟩
  have hwf : ds.mRecvBuffer.Wf := hsame.1 ▸ h.inv.holds.wf
  have hcount : proclen ≤ ds.mRecvBuffer.oxBufferGetreadvalidcount := by
    rw [hsame.1, h.inv.holds.readvalidcount, ← h.inv.view _ _ _ hpc]
    exact hle
  have hgrown' : ds.Grown maxRecvBufferSize := by
    rw [DataSocket.Grown, hsame.1]
    exact hgrown
  rw [DataSocket.recvReturned, if_pos hcount, if_pos hcount] at hs'
  subst hs' hlast
  exact Drains.endTurn (hgrown'.consume hwf hcount) (hwf.addreadpos hcount).1 hsame.2 hinv

/-- **One step.**  The invariant is kept, and if the step is a return of `recv` that leaves
the socket open, there is a reason for it. -/
theorem Drains.next (h : Drains maxRecvBufferSize p)
    (hnext : (drainSystem malloc maxRecvBufferSize).next p action = some p') :
    Drains maxRecvBufferSize p' ∧
      (p.1.pc ≠ .outside → p'.1.pc = .outside → p'.1.ds.mSocket.isSome →
        Drained maxRecvBufferSize p'.1 p'.2) := by
  obtain ⟨s, last⟩ := p
  obtain ⟨s', last'⟩ := p'
  obtain ⟨hrestricted, hlast⟩ := System.next_of_record hnext
  obtain ⟨hhonest, hstep⟩ := System.next_of_restrict hrestricted
  have hinv : s'.Inv maxRecvBufferSize := h.inv.next hstep
  simp only at hlast hhonest hrestricted
  obtain ⟨hpc, rfl, rfl⟩ | ⟨hpc, rfl, htry, rfl⟩ | ⟨r, tryRecvLen, hpc, rfl, htry, hvalid, hresult⟩ |
    ⟨view, retlen, tryRecvLen, proclen, closes, ds, hpc, rfl, hds, hs'⟩ := next_cases hstep
  · exact ⟨.of_roomy hinv h.closed (h.roomy (.inl hpc)) (.inr rfl), fun hin => absurd hpc hin⟩
  · refine ⟨.of_roomy hinv h.closed (h.roomy (.inr hpc)) (.inl rfl), fun _ _ hopen => ?_⟩
    -- The socket is open, so the loop has stopped for lack of room.
    have hfull : s.ds.mRecvBuffer.oxBufferGetwritevalidcount = 0 := by
      by_contra hroom
      change s.ds.mSocket.isSome at hopen
      simp [DataSocket.tryRecvLen, hopen, hroom] at htry
    have hroomy := h.roomy (.inr hpc) hfull
    rw [h.inv.holds.readable] at hroomy
    exact .inr (.inr hroomy)
  · simp only [recordRecv, htry, Option.map_some] at hlast
    subst hlast
    obtain ⟨hdrains, hdrained⟩ := h.onResult hpc htry hvalid hresult
    exact ⟨hdrains, fun _ => hdrained⟩
  · have hle : proclen ≤ view.length := by
      unfold honest at hhonest
      rw [hpc] at hhonest
      exact of_decide_eq_true hhonest
    simp only [recordRecv] at hlast
    subst hlast
    obtain ⟨hdrains, hdrained⟩ := h.returned hpc hle hds hs' hinv
    exact ⟨hdrains, fun _ hout _ => hdrained hout⟩

theorem drains_of_reachable (h : (drainSystem malloc maxRecvBufferSize).Reachable p) :
    Drains maxRecvBufferSize p := by
  refine h.invariant ?_ fun p a p' _ hdrains hnext => (hdrains.next hnext).1
  rintro ⟨s, last⟩ ⟨hinit, -⟩
  have hinv := inv_of_reachable (.init hinit)
  obtain ⟨socket, callback, hstart⟩ := hinit
  simp only [start, DataSocket.new, Option.map_map, Option.map_eq_some_iff] at hstart
  obtain ⟨buffer, hbuffer, rfl⟩ := hstart
  obtain ⟨hwf, -, hlen, hwrite, -⟩ := Buffer.oxBufferNew_spec hbuffer
  refine .of_roomy hinv rfl (fun hroom => ?_) (.inl rfl)
  change buffer.oxBufferGetwritevalidcount = 0 at hroom
  rw [hwf.getwritevalidcount, hlen, hwrite] at hroom
  cases hroom

/-- **The read loop drains.**  When `recv` returns and the socket is still open, its last
`::recv` reported that it would block or returned fewer bytes than it was asked for, or
the buffer is full of unconsumed bytes and cannot grow. -/
theorem recv_drains (malloc : Allocator) (maxRecvBufferSize : ℕ) (p p' : Receiver × LastRecv)
    (action : RecvAction) (h : (drainSystem malloc maxRecvBufferSize).Reachable p)
    (hnext : (drainSystem malloc maxRecvBufferSize).next p action = some p')
    (hinside : p.1.pc ≠ .outside) (hreturns : p'.1.pc = .outside)
    (hopen : p'.1.ds.mSocket.isSome) :
    (∃ requested, p'.2 = some (requested, .wouldBlock)) ∨
    (∃ (requested : ℤ) (bytes : List UInt8), p'.2 = some (requested, .data bytes) ∧
      (bytes.length : ℤ) < requested) ∨
    (p'.1.ds.mRecvBuffer.readable = p'.1.received.drop p'.1.consumed ∧
      p'.1.ds.mRecvBuffer.readable.length = p'.1.ds.mRecvBuffer.dataLen ∧
      maxRecvBufferSize < p'.1.ds.mRecvBuffer.dataLen + 1024) := by
  obtain ⟨hdrains, hdrained⟩ := (drains_of_reachable h).next hnext
  have hreadable := hdrains.inv.holds.readable
  rcases hdrained hinside hreturns hopen with hblock | hshort | ⟨hfull, hmax⟩
  · exact .inl hblock
  · exact .inr (.inl hshort)
  · exact .inr (.inr ⟨hreadable, hreadable ▸ hfull, hmax⟩)

/-- Three bytes arrive on a fresh socket and its callback takes two of them. -/
theorem recv_drains_short_read :
    ∃ p p', (drainSystem .unlimited 20000).Reachable p ∧
      (drainSystem .unlimited 20000).next p (.returned 2 false) = some p' ∧
      p.1.pc ≠ .outside ∧ p'.1.pc = .outside ∧ p'.1.ds.mSocket.isSome ∧
      ((∃ requested, p'.2 = some (requested, .wouldBlock)) ∨
      (∃ (requested : ℤ) (bytes : List UInt8), p'.2 = some (requested, .data bytes) ∧
        (bytes.length : ℤ) < requested) ∨
      (p'.1.ds.mRecvBuffer.readable = p'.1.received.drop p'.1.consumed ∧
        p'.1.ds.mRecvBuffer.readable.length = p'.1.ds.mRecvBuffer.dataLen ∧
        20000 < p'.1.ds.mRecvBuffer.dataLen + 1024)) := by
  have hrun : ((start .unlimited 5 20000 true).bind fun s =>
      ((drainSystem .unlimited 20000).run (s, none) [.call, .result (.data [1, 2, 3])]).bind
        fun p => ((drainSystem .unlimited 20000).next p (.returned 2 false)).map
          fun p' => (p.1.pc, p'.1.pc, p'.1.ds.mSocket)) =
      some (.callback [1, 2, 3] 3 17408, .outside, some 5) := by decide +kernel
  simp only [Option.bind_eq_some_iff, Option.map_eq_some_iff, Prod.mk.injEq] at hrun
  obtain ⟨s, hstart, p, hactions, p', hnext, hpc, hpc', hsocket⟩ := hrun
  have hinit : (drainSystem .unlimited 20000).init (s, none) := ⟨⟨5, true, hstart⟩, rfl⟩
  have hreach := System.reachable_of_run hinit hactions
  have hinside : p.1.pc ≠ .outside := by rw [hpc]; decide
  have hopen : p'.1.ds.mSocket.isSome := by rw [hsocket]; rfl
  exact ⟨p, p', hreach, hnext, hinside, hpc', hopen,
    recv_drains .unlimited 20000 p p' _ hreach hnext hinside hpc' hopen⟩

end Receiver

end Brynet
