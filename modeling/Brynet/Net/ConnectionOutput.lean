import Brynet.Net.Connection

/-!
# What a connection sends

Two invariants of the output side of a connection.  `Awake` says that output
which is waiting has somebody who will write it: a flush closure, or the kernel,
which will report the socket writable.  `Streams` says that the bytes the kernel
has accepted and those that still wait are the delivered packets, in order.

Both are proved step by step, with `Wf` of `Brynet.Net.Connection` given:

* `Flushes.step`: a step that leaves output behind posts a flush closure
  (`Awake.runAfterFlush`) or has armed `EPOLLOUT` (`Awake.blockWrite`), unless the loop
  thread is in `quickFlush` for the socket, which decides before it leaves;
* `Streams.step`: in the erase loop the kernel is ahead of the list, by the bytes that
  are not yet erased (`acceptedLen`).  `Streaming.accepted`, `.shrink` and `.erase`
  account for them.
-/

namespace Brynet

open MachineInt Memory

namespace DataSocket

/-- The bytes that wait in the send list. -/
def unsent (d : DataSocket) : List UInt8 := (d.mSendList.map PendingPacket.unsent).flatten

variable {d : DataSocket} {packet : PendingPacket} {rest : List PendingPacket}

theorem unsent_of_cons (hlist : d.mSendList = packet :: rest) :
    d.unsent = packet.unsent ++ (rest.map PendingPacket.unsent).flatten := by
  rw [unsent, hlist, List.map_cons, List.flatten_cons]

theorem unsent_eraseFront (hlist : d.mSendList = packet :: rest) :
    d.eraseFront.unsent = (rest.map PendingPacket.unsent).flatten := by
  rw [unsent, eraseFront, hlist, List.tail_cons]

theorem offered_isPrefix (d : DataSocket) : d.offered <+: d.unsent := by
  refine ⟨((d.mSendList.drop maxIovec).map PendingPacket.unsent).flatten, ?_⟩
  rw [offered, iov, unsent, ← List.flatten_append, ← List.map_append, List.take_append_drop]

end DataSocket

namespace PendingPacket

variable {packet : PendingPacket}

theorem length_unsent (hle : packet.left ≤ packet.data.length) :
    packet.unsent.length = packet.left := by
  rw [unsent, List.length_drop]
  omega

/-- Less of a packet is left. -/
theorem unsent_shrink {tmpLen : ℕ} (hle : packet.left ≤ packet.data.length)
    (hlt : tmpLen < packet.left) :
    PendingPacket.unsent { packet with left := packet.left - tmpLen } =
      packet.unsent.drop tmpLen := by
  rw [unsent, unsent, List.drop_drop]
  congr 1
  change packet.data.length - (packet.left - tmpLen) = packet.data.length - packet.left + tmpLen
  omega

end PendingPacket

namespace Connection

variable {c c' : Connection} {d : DataSocket} {procs : List AfterProc} {activity : Activity}
  {result : DataSocket × List AfterProc}

/-! ## Somebody will write -/

/-- While the socket is open and not shut down, it is armed when it cannot be
written, and output that waits is waiting for a flush closure or for the kernel. -/
structure Awake (d : DataSocket) (activity : Activity) : Prop where
  armed : d.mCanWrite = false → d.epollOut = true
  waiting : d.mSendList ≠ [] → activity.isFlushing = false →
    d.mIsPostFlush = true ∨ d.mCanWrite = false

/-- Every open socket that was not shut down is awake. -/
def Flushes (c : Connection) : Prop :=
  ∀ d, c.socket = some d → d.mSocket.isSome = true → d.shutWr = false → Awake d c.activity

theorem flushes_absent : absent.Flushes := by
  simp [Flushes, absent]

/-- `runAfterFlush` wakes a socket that is open. -/
theorem Awake.runAfterFlush (hopen : d.mSocket.isSome = true)
    (harmed : d.mCanWrite = false → d.epollOut = true) : Awake d.runAfterFlush.1 activity := by
  unfold DataSocket.runAfterFlush
  split
  · exact ⟨harmed, fun _ _ => .inl rfl⟩
  · rename_i hno
    refine ⟨harmed, ?_⟩
    intro hlist _
    left
    simpa [hopen, hlist] using hno

theorem Awake.blockWrite (activity : Activity) : Awake d.blockWrite activity :=
  ⟨fun _ => rfl, fun _ _ => .inr rfl⟩

theorem runAfterFlush_mSocket (d : DataSocket) :
    d.runAfterFlush.1.mSocket = d.mSocket ∧ d.runAfterFlush.1.shutWr = d.shutWr := by
  rw [DataSocket.runAfterFlush_fst]
  exact ⟨rfl, rfl⟩

theorem Flushes.call (h : c.Flushes) (hd : c.socket = some d) (hcall : d.Call result) :
    (c.call d result).Flushes := by
  intro d' hd' hopen hshut
  cases hd'
  cases hcall with
  | quiet =>
      have hawake := h d hd hopen hshut
      exact ⟨hawake.armed, hawake.waiting⟩
  | canSend =>
      rw [DataSocket.canSend, (runAfterFlush_mSocket _).1] at hopen
      exact Awake.runAfterFlush hopen (by simp)
  | onClose =>
      unfold DataSocket.onClose at hopen hshut ⊢
      split at hopen
      · rename_i hfinal
        simp only [hfinal, if_true] at hshut ⊢
        exact h d hd hopen hshut
      · unfold DataSocket.closeSocket at hopen
        split at hopen
        · simp at hopen
        · contradiction
  | postShutdown =>
      unfold DataSocket.postShutdown at hopen hshut ⊢
      split at hopen
      · rename_i hsome
        simp only [hsome, if_true] at hshut ⊢
        exact h d hd hopen hshut
      · contradiction

/-- Steps of `quickFlush` after which it goes on. -/
theorem Flushes.flushing {d' : DataSocket} (h : c.Flushes) (hd : c.socket = some d)
    (hsocket : c'.socket = some d') (hactivity : c'.activity.isFlushing = true)
    (hsame : d'.mSocket = d.mSocket ∧ d'.shutWr = d.shutWr ∧ d'.mCanWrite = d.mCanWrite ∧
      d'.epollOut = d.epollOut) : c'.Flushes := by
  intro d'' hd'' hopen hshut
  rw [hsocket, Option.some.injEq] at hd''
  subst hd''
  obtain ⟨hmSocket, hshutWr, hcanWrite, hepollOut⟩ := hsame
  refine ⟨?_, by simp [hactivity]⟩
  rw [hcanWrite, hepollOut]
  exact (h d hd (hmSocket ▸ hopen) (hshutWr ▸ hshut)).armed

theorem Flushes.step (h : c.Flushes) (hwf : c.Wf) (hstep : Step c c') : c'.Flushes := by
  cases hstep with
  -- A new socket is writable and has nothing to send.
  | created hnew =>
      intro d' hd' _ _
      cases hd'
      exact ⟨by simp [hnew.canWrite], by simp [hnew.sendList]⟩
  | refused _ _ => simp [Flushes]
  | entered sid hd hno =>
      intro d' hd' _ _
      cases hd'
      have hnew := ((hwf.posted _ hd).unentered hno).1
      exact ⟨by simp [hnew.canWrite], by simp [hnew.sendList]⟩
  | called hd _ _ hcall => exact h.call hd hcall
  | applied _ _ _ => exact h
  -- `send` posts the flush closure for its packet.
  | @sent _ d caller packet callback hd _ _ =>
      intro d' hd' hopen hshut
      cases hd'
      rw [DataSocket.sendInLoop, (runAfterFlush_mSocket _).1] at hopen
      rw [DataSocket.sendInLoop, (runAfterFlush_mSocket _).2] at hshut
      exact Awake.runAfterFlush hopen (h d hd hopen hshut).armed
  -- An event of the socket is no flush, before and behind it.
  | handle hd _ hactivity =>
      intro d' hd' hopen hshut
      have hawake := h d' hd' hopen hshut
      exact ⟨hawake.armed, fun hlist _ => hawake.waiting hlist (by simp [hactivity, Activity.isFlushing])⟩
  | handled hactivity =>
      intro d' hd' hopen hshut
      have hawake := h d' hd' hopen hshut
      exact ⟨hawake.armed, fun hlist _ => hawake.waiting hlist (by simp [hactivity, Activity.isFlushing])⟩
  | received _ _ _ => exact h
  | @flush _ d _ hd _ _ =>
      intro d' hd' hopen hshut
      cases hd'
      have hawake := h d hd hopen hshut
      refine ⟨hawake.armed, ?_⟩
      intro _ hidle
      right
      -- The closure returns at once only when the socket cannot be written.
      by_contra hcan
      have hclosed : d.mSocket ≠ none := Option.ne_none_iff_isSome.mpr hopen
      simp [hcan, hclosed, Activity.isFlushing] at hidle
  -- A socket that was shut down is not promised anything.
  | @shutdown _ d _ hd _ _ =>
      intro d' hd' hopen hshut
      cases hd'
      unfold DataSocket.procShutdownInLoop at hopen hshut
      split at hopen
      · rename_i hsome
        simp [hsome] at hshut
      · contradiction
  | disConnect hd hactivity hprocs =>
      intro d' hd' hopen hshut
      have hawake := h d' hd' hopen hshut
      exact ⟨hawake.armed, fun hlist _ => hawake.waiting hlist (by simp [hactivity, Activity.isFlushing])⟩
  | deleted _ => simp [Flushes]
  | flushLeft hd _ hleft =>
      intro d' hd' hopen hshut
      rw [hd, Option.some.injEq] at hd'
      subst hd'
      refine ⟨(h _ hd hopen hshut).armed, ?_⟩
      intro hlist _
      rcases hleft with hnil | hclosed
      · exact absurd hnil hlist
      · simp [hclosed] at hopen
  | blocked _ _ _ =>
      intro d' hd' _ _
      cases hd'
      exact .blockWrite _
  | accepted full hd _ _ => exact h.flushing hd hd rfl ⟨rfl, rfl, rfl, rfl⟩
  | shrunk hd _ hlist _ =>
      exact h.flushing hd rfl rfl (by simp [DataSocket.shrinkFront, hlist])
  | erased hd _ _ _ => exact h.flushing hd rfl rfl ⟨rfl, rfl, rfl, rfl⟩
  | complete hd _ _ _ => exact h.flushing hd hd rfl ⟨rfl, rfl, rfl, rfl⟩
  | completed hd _ => exact h.flushing hd rfl rfl ⟨rfl, rfl, rfl, rfl⟩
  | writeMore hd _ _ => exact h.flushing hd hd rfl ⟨rfl, rfl, rfl, rfl⟩
  | partly _ _ _ _ =>
      intro d' hd' _ _
      cases hd'
      exact .blockWrite _

/-! ## The bytes on the wire -/

/-- How many bytes of the send list the kernel has accepted already: those the
erase loop has not yet got to, with the packet whose callback is running. -/
def acceptedLen (d : DataSocket) : Activity → ℕ
  | .erasing tmpLen _ => tmpLen
  | .completing tmpLen _ => tmpLen + d.mSendList.head?.elim 0 PendingPacket.left
  | .away | .handling | .writing | .closing => 0

/-- The wire and the bytes that wait are the delivered packets. -/
structure Streaming (d : DataSocket) (activity : Activity) (wire : List UInt8)
    (delivered : List (Caller × List UInt8)) : Prop where
  left_le : ∀ packet ∈ d.mSendList, packet.left ≤ packet.data.length
  front : ∀ tmpLen full, activity = .completing tmpLen full → d.mSendList ≠ []
  accepted_le : acceptedLen d activity ≤ d.unsent.length
  bytes : wire ++ d.unsent.drop (acceptedLen d activity) = delivered.flatMap Prod.snd

structure Streams (c : Connection) : Prop where
  live : ∀ d, c.socket = some d → Streaming d c.activity c.wire c.delivered
  started : c.wire <+: c.delivered.flatMap Prod.snd

variable {wire : List UInt8} {delivered : List (Caller × List UInt8)}

theorem streams_absent : absent.Streams := ⟨by simp [absent], List.prefix_refl _⟩

theorem Streams.of_streaming (hsocket : c.socket = some d)
    (h : Streaming d c.activity c.wire c.delivered) : c.Streams := by
  refine ⟨?_, _, h.bytes⟩
  intro d' hd'
  rw [hsocket, Option.some.injEq] at hd'
  exact hd' ▸ h

/-- Only the send list matters, and what of it was accepted. -/
theorem Streaming.of_eq {d' : DataSocket} {next : Activity}
    (h : Streaming d activity wire delivered) (hlist : d'.mSendList = d.mSendList)
    (hfront : ∀ tmpLen full, next = .completing tmpLen full → d.mSendList ≠ [])
    (haccepted : acceptedLen d next = acceptedLen d activity) :
    Streaming d' next wire delivered := by
  have hunsent : d'.unsent = d.unsent := by rw [DataSocket.unsent, hlist, DataSocket.unsent]
  have hsame : acceptedLen d' next = acceptedLen d next := by
    cases next <;> simp [acceptedLen, hlist]
  refine ⟨?_, ?_, ?_, ?_⟩
  · rw [hlist]
    exact h.left_le
  · rw [hlist]
    exact hfront
  · rw [hsame, haccepted, hunsent]
    exact h.accepted_le
  · rw [hsame, haccepted, hunsent]
    exact h.bytes

/-- A packet is put into the send list. -/
theorem Streaming.send (h : Streaming d activity wire delivered) (caller : Caller)
    (packet : List UInt8) (callback : Bool) :
    Streaming (d.sendInLoop packet callback).1 activity wire (delivered ++ [(caller, packet)]) := by
  have hlist : (d.sendInLoop packet callback).1.mSendList =
      d.mSendList ++ [⟨packet, packet.length, callback⟩] := by
    rw [DataSocket.sendInLoop, DataSocket.runAfterFlush_fst]
  have hunsent : (d.sendInLoop packet callback).1.unsent = d.unsent ++ packet := by
    rw [DataSocket.unsent, hlist, List.map_append, List.flatten_append, DataSocket.unsent]
    simp [PendingPacket.unsent]
  have haccepted : acceptedLen (d.sendInLoop packet callback).1 activity = acceptedLen d activity := by
    cases activity with
    | completing tmpLen full =>
        obtain ⟨front, rest, hcons⟩ := List.exists_cons_of_ne_nil (h.front tmpLen full rfl)
        simp [acceptedLen, hlist, hcons]
    | away | handling | writing | closing => rfl
    | erasing => rfl
  refine ⟨?_, ?_, ?_, ?_⟩
  · intro pending hpending
    rw [hlist, List.mem_append, List.mem_singleton] at hpending
    rcases hpending with hold | rfl
    · exact h.left_le pending hold
    · exact Nat.le_refl _
  · intro _ _ _
    simp [hlist]
  · rw [haccepted, hunsent, List.length_append]
    exact h.accepted_le.trans (Nat.le_add_right _ _)
  · rw [haccepted, hunsent, List.drop_append_of_le_length h.accepted_le, ← List.append_assoc,
      h.bytes]
    simp

/-- `writev` accepts `count` bytes of what it is offered. -/
theorem Streaming.accepted (h : Streaming d .writing wire delivered) {count : ℕ} (full : Bool)
    (hcount : count ≤ d.offered.length) :
    Streaming d (.erasing count full) (wire ++ d.offered.take count) delivered := by
  obtain ⟨later, hlater⟩ := d.offered_isPrefix
  have htake : d.offered.take count = d.unsent.take count := by
    rw [← hlater, List.take_append_of_le_length hcount]
  refine ⟨h.left_le, by simp, ?_, ?_⟩
  · change count ≤ d.unsent.length
    rw [← hlater, List.length_append]
    omega
  · have hbytes := h.bytes
    rw [acceptedLen, List.drop_zero] at hbytes
    rw [acceptedLen, htake, List.append_assoc, List.take_append_drop, hbytes]

variable {packet : PendingPacket} {rest : List PendingPacket} {tmpLen : ℕ} {full : Bool}

/-- Part of the front packet was accepted. -/
theorem Streaming.shrink (h : Streaming d (.erasing tmpLen full) wire delivered)
    (hlist : d.mSendList = packet :: rest) (hlt : tmpLen < packet.left) :
    Streaming (d.shrinkFront tmpLen) (.erasing 0 full) wire delivered := by
  have hle : packet.left ≤ packet.data.length := h.left_le packet (by simp [hlist])
  have hlist' : (d.shrinkFront tmpLen).mSendList =
      { packet with left := packet.left - tmpLen } :: rest := by
    simp [DataSocket.shrinkFront, hlist]
  have hunsent : (d.shrinkFront tmpLen).unsent = d.unsent.drop tmpLen := by
    rw [DataSocket.unsent_of_cons hlist', DataSocket.unsent_of_cons hlist,
      PendingPacket.unsent_shrink hle hlt, List.drop_append_of_le_length]
    rw [PendingPacket.length_unsent hle]
    exact hlt.le
  refine ⟨?_, by simp, Nat.zero_le _, ?_⟩
  · intro pending hpending
    rw [hlist', List.mem_cons] at hpending
    rcases hpending with rfl | hold
    · exact (Nat.sub_le _ _).trans hle
    · exact h.left_le pending (by simp [hlist, hold])
  · rw [acceptedLen, List.drop_zero, hunsent]
    exact h.bytes

/-- The front packet was accepted as a whole, and is erased. -/
theorem Streaming.erase (h : Streaming d activity wire delivered)
    (hlist : d.mSendList = packet :: rest) (haccepted : acceptedLen d activity = tmpLen + packet.left) :
    Streaming d.eraseFront (.erasing tmpLen full) wire delivered := by
  have hle : packet.left ≤ packet.data.length := h.left_le packet (by simp [hlist])
  have hlength := PendingPacket.length_unsent hle
  have hbytes := h.bytes
  have haccepted_le := h.accepted_le
  rw [haccepted, DataSocket.unsent_of_cons hlist] at hbytes haccepted_le
  rw [List.length_append, hlength] at haccepted_le
  refine ⟨?_, by simp, ?_, ?_⟩
  · intro pending hpending
    refine h.left_le pending ?_
    rw [hlist]
    rw [DataSocket.eraseFront, hlist] at hpending
    exact List.mem_cons_of_mem _ hpending
  · rw [acceptedLen, DataSocket.unsent_eraseFront hlist]
    omega
  · rw [acceptedLen, DataSocket.unsent_eraseFront hlist, ← hbytes, Nat.add_comm, ← hlength,
      List.drop_append, List.drop_eq_nil_of_le (Nat.le_add_right _ _), Nat.add_sub_cancel_left,
      List.nil_append]

/-- The end of the erase loop: nothing that was accepted is left in the list. -/
theorem Streaming.endErase {d' : DataSocket} {next : Activity}
    (h : Streaming d (.erasing tmpLen full) wire delivered) (hlist : d'.mSendList = d.mSendList)
    (hend : d.mSendList = [] ∨ tmpLen = 0) (hnext : acceptedLen d next = 0)
    (hfront : ∀ tmpLen full, next ≠ .completing tmpLen full) :
    Streaming d' next wire delivered := by
  refine h.of_eq hlist (fun _ _ heq => absurd heq (hfront _ _)) ?_
  rw [hnext, acceptedLen]
  rcases hend with hnil | hzero
  · have hle := h.accepted_le
    rw [acceptedLen, DataSocket.unsent, hnil] at hle
    exact (Nat.le_zero.mp hle).symm
  · exact hzero.symm

theorem Streams.step (h : c.Streams) (hstep : Step c c') : c'.Streams := by
  cases hstep with
  -- Outside of the erase loop no byte is accounted for that the list still has.
  | created hnew =>
      refine .of_streaming rfl ⟨?_, by simp [absent], Nat.zero_le _, ?_⟩
      · simp [hnew.sendList]
      · simp [absent, DataSocket.unsent, hnew.sendList]
  | refused _ _ => exact ⟨by simp, h.started⟩
  | entered sid hd _ =>
      exact .of_streaming rfl ((h.live _ hd).of_eq rfl (h.live _ hd).front rfl)
  | called hd _ _ hcall =>
      exact .of_streaming rfl ((h.live _ hd).of_eq hcall.frame.2.2.1 (h.live _ hd).front rfl)
  | applied _ _ _ => exact ⟨h.live, h.started⟩
  -- The packet is delivered and put into the list at once.
  | sent caller packet callback hd _ _ =>
      exact .of_streaming rfl ((h.live _ hd).send caller packet callback)
  | handle hd _ hactivity =>
      exact .of_streaming hd ((h.live _ hd).of_eq rfl (by simp) (by simp [hactivity, acceptedLen]))
  | handled hactivity =>
      refine ⟨?_, h.started⟩
      intro d hd
      exact (h.live d hd).of_eq rfl (by simp) (by simp [hactivity, acceptedLen])
  | received _ _ _ => exact ⟨h.live, h.started⟩
  | flush hd hactivity _ =>
      refine .of_streaming rfl ((h.live _ hd).of_eq rfl ?_ ?_)
      · intro _ _ heq
        dsimp only at heq
        split at heq <;> cases heq
      · rw [hactivity]
        dsimp only
        split <;> rfl
  | @shutdown _ d _ hd _ _ =>
      have hlist : d.procShutdownInLoop.mSendList = d.mSendList := by
        unfold DataSocket.procShutdownInLoop
        split <;> rfl
      exact .of_streaming rfl ((h.live _ hd).of_eq hlist (h.live _ hd).front rfl)
  | disConnect hd hactivity _ =>
      exact .of_streaming hd ((h.live _ hd).of_eq rfl (by simp) (by simp [hactivity, acceptedLen]))
  | deleted _ => exact ⟨by simp, h.started⟩
  -- A flush that ends without a write has accepted nothing.
  | flushLeft hd hactivity _ =>
      exact .of_streaming hd ((h.live _ hd).of_eq rfl (by simp) (by simp [hactivity, acceptedLen]))
  | blocked hd hactivity _ =>
      exact .of_streaming rfl ((h.live _ hd).of_eq rfl (by simp) (by simp [hactivity, acceptedLen]))
  -- What was accepted moves to the wire, and is then taken off the list packet by packet.
  | accepted full hd hactivity hcount =>
      have hlive := h.live _ hd
      rw [hactivity] at hlive
      exact .of_streaming hd (hlive.accepted full hcount)
  | shrunk hd hactivity hlist hlt =>
      have hlive := h.live _ hd
      rw [hactivity] at hlive
      exact .of_streaming rfl (hlive.shrink hlist hlt)
  | erased hd hactivity hlist hle =>
      refine .of_streaming rfl ((h.live _ hd).erase hlist ?_)
      rw [hactivity, acceptedLen, Nat.sub_add_cancel hle]
  -- During the callback the front packet is counted as erased, though it is still there.
  | complete hd hactivity hlist hle =>
      refine .of_streaming hd ((h.live _ hd).of_eq rfl ?_ ?_)
      · simp [hlist]
      · simp [acceptedLen, hactivity, hlist, Nat.sub_add_cancel hle]
  | @completed _ d tmpLen full hd hactivity =>
      obtain ⟨front, rest, hlist⟩ :=
        List.exists_cons_of_ne_nil ((h.live _ hd).front tmpLen full hactivity)
      refine .of_streaming rfl ((h.live _ hd).erase hlist ?_)
      simp [acceptedLen, hactivity, hlist]
  -- At the end of the erase loop every accepted byte is accounted for.
  | writeMore hd hactivity hend =>
      have hlive := h.live _ hd
      rw [hactivity] at hlive
      exact .of_streaming hd (hlive.endErase rfl hend rfl (by simp))
  | partly hd hactivity hend _ =>
      have hlive := h.live _ hd
      rw [hactivity] at hlive
      exact .of_streaming rfl (hlive.endErase rfl hend rfl (by simp))

end Connection

end Brynet
