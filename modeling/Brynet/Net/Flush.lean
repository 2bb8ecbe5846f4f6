import Brynet.Lib.Transition
import Brynet.Net.ConnectionOutput

/-!
# `quickFlush` and `normalFlush`

Both flush functions of `DataSocket`, step by step, against a kernel that takes
any number of the bytes it is offered, would block, or fails.  `quickFlush`
offers up to `MAX_IOVEC` packets to `writev`.  `normalFlush` copies packets into
a buffer of `SENDBUF_SIZE` bytes while they fit, or offers the first packet alone
if it does not fit.  After that both run the same loop, which erases the packets
the accepted bytes cover.

The packets are counted by their position in the queue the flush starts with.
`accepted`, `removed` and `fired` are not in the source: the bytes the kernel has
accepted of this queue, the number of packets erased, and the positions of the
packets whose complete callback was called.  The callbacks here do not call back
into the socket.
-/

namespace Brynet

open MachineInt Transition

/-- A send list between two flushes: a packet has no more bytes left than it has,
and only the first one may be partly sent. -/
structure SendQueue where
  packets : List PendingPacket
  left_le : ∀ packet ∈ packets, packet.left ≤ packet.data.length
  whole : ∀ packet ∈ packets.tail, packet.left = packet.data.length

namespace SendQueue

/-- The bytes of the queued packets. -/
def bytes (queue : SendQueue) : List UInt8 := (queue.packets.map PendingPacket.data).flatten

/-- The bytes of the first `n` packets. -/
def bytesOf (queue : SendQueue) (n : ℕ) : List UInt8 :=
  ((queue.packets.take n).map PendingPacket.data).flatten

/-- The bytes of the queue that were accepted before. -/
def sent (queue : SendQueue) : List UInt8 :=
  match queue.packets with
  | [] => []
  | packet :: _ => packet.data.take (packet.data.length - packet.left)

/-- Whether the packet at position `i` has a complete callback. -/
def hasCallback (queue : SendQueue) (i : ℕ) : Bool :=
  (queue.packets[i]?.map PendingPacket.mCompleteCallback).getD false

end SendQueue

namespace DataSocket

/-- `SENDBUF_SIZE` -/
def sendbufSize : ℕ := 1024 * 32

/-- The merge loop of `normalFlush`, with `waitSendSize` bytes in the buffer: the
bytes it copies.  The sum does not wrap around, as no string is that long. -/
def mergePackets (waitSendSize : ℕ) : List PendingPacket → List UInt8
  | [] => []
  | packet :: rest =>
      if sendbufSize < waitSendSize + packet.left then []
      else packet.unsent ++ mergePackets (waitSendSize + packet.left) rest

/-- The bytes from `sendptr` on; their number is `wait_send_size`. -/
def waitSend (ds : DataSocket) : List UInt8 :=
  match ds.mSendList with
  | [] => []
  | packet :: _ =>
      if sendbufSize < packet.left then packet.unsent else mergePackets 0 ds.mSendList

end DataSocket

/-- The two implementations of `flush`. -/
inductive FlushPath
  | quick
  | normal
deriving Repr, DecidableEq

namespace FlushPath

/-- Whether the outer loop is left before the system call. -/
def leaves (path : FlushPath) (ds : DataSocket) : Bool :=
  match path with
  | quick => ds.mSendList.isEmpty
  | normal => ds.mSendList.isEmpty || ds.waitSend.isEmpty

/-- The bytes offered to the system call.  The length of `send` is an `int`. -/
def offered (path : FlushPath) (ds : DataSocket) : List UInt8 :=
  match path with
  | quick => ds.offered
  | normal => ds.waitSend.take (toInt32 ds.waitSend.length).toNat

/-- The results of the system call.  The limit of Linux is that of `writev`. -/
def valid (path : FlushPath) (ds : DataSocket) (r : WritevResult) : Bool :=
  match path, r with
  | quick, r => r.valid ds.offered.length
  | normal, .accepted count => 1 ≤ count && count ≤ (normal.offered ds).length
  | normal, .wouldBlock | normal, .error => true

/-- Whether `count` is everything that the function wanted to send. -/
def full (path : FlushPath) (ds : DataSocket) (count : ℕ) : Bool :=
  match path with
  | quick => decide (toInt32 count = ds.readySendLen)
  | normal => decide (count = ds.waitSend.length)

end FlushPath

/-- Where the flush is: before a turn of the outer loop, in the erase loop, or at
its end. -/
inductive FlushPc
  | turn
  | erase (tmpLen : ℕ) (full : Bool)
  | done
deriving Repr, DecidableEq

/-- A running flush of `ds`.  `procs` are the closures posted by it. -/
structure Flush where
  ds : DataSocket
  procs : List AfterProc
  pc : FlushPc
  accepted : List UInt8
  removed : ℕ
  fired : List ℕ
deriving Repr, DecidableEq

inductive FlushAction
  | leave
  | send (r : WritevResult)
  | erase
deriving Repr, DecidableEq

namespace Flush

/-- The call of a flush function on a socket whose send list is `queue`. -/
def start (ds : DataSocket) (queue : SendQueue) : Flush where
  ds := { ds with mSendList := queue.packets }
  procs := []
  pc := .turn
  accepted := queue.sent
  removed := 0
  fired := []

/-- Leave the function. -/
def finish (s : Flush) (result : DataSocket × List AfterProc) : Flush :=
  { s with ds := result.1, procs := s.procs ++ result.2, pc := .done }

/-- After the system call. -/
def afterSend (path : FlushPath) (s : Flush) : WritevResult → Flush
  | .accepted count =>
      { s with
        pc := .erase count (path.full s.ds count)
        accepted := s.accepted ++ (path.offered s.ds).take count }
  | .wouldBlock => s.finish (s.ds.blockWrite, [])
  | .error => s.finish (s.ds.leaveLoop true)

/-- After the erase loop. -/
def afterErase (s : Flush) (full : Bool) : Flush :=
  if full then { s with pc := .turn } else s.finish (s.ds.blockWrite, [])

/-- A turn of the erase loop. -/
def eraseTurn (s : Flush) (tmpLen : ℕ) (full : Bool) : Flush :=
  match s.ds.mSendList with
  | [] => s.afterErase full
  | packet :: _ =>
      if tmpLen < packet.left then { s with ds := s.ds.shrinkFront tmpLen }.afterErase full
      else
        { s with
          ds := s.ds.eraseFront
          pc := .erase (tmpLen - packet.left) full
          removed := s.removed + 1
          fired := s.fired ++ if packet.mCompleteCallback then [s.removed] else [] }

def next (path : FlushPath) (s : Flush) (action : FlushAction) : Option Flush :=
  match s.pc, action with
  | .turn, .leave => if path.leaves s.ds then some { s with pc := .done } else none
  | .turn, .send r =>
      if !path.leaves s.ds && path.valid s.ds r then some (s.afterSend path r) else none
  | .erase tmpLen full, .erase => some (s.eraseTurn tmpLen full)
  | _, _ => none

/-- The flushes of a send list, on any socket that is open and writable. -/
def system (path : FlushPath) (queue : SendQueue) : System Flush FlushAction where
  init s := ∃ ds, ds.mSocket.isSome ∧ ds.mCanWrite ∧ s = start ds queue
  next := next path

end Flush

/-! ## What is offered -/

theorem PendingPacket.length_unsent_le (packet : PendingPacket) :
    packet.unsent.length ≤ packet.data.length := by
  simp [PendingPacket.unsent]

theorem length_unsent_le (ds : DataSocket) :
    ds.unsent.length ≤ ((ds.mSendList.map PendingPacket.data).flatten).length := by
  unfold DataSocket.unsent
  induction ds.mSendList with
  | nil => simp
  | cons packet rest ih =>
      have hpacket := packet.length_unsent_le
      simp only [List.map_cons, List.flatten_cons, List.length_append]
      omega

theorem mergePackets_isPrefix (waitSendSize : ℕ) (packets : List PendingPacket) :
    DataSocket.mergePackets waitSendSize packets <+:
      (packets.map PendingPacket.unsent).flatten := by
  induction packets generalizing waitSendSize with
  | nil => simp [DataSocket.mergePackets]
  | cons packet rest ih =>
      simp only [DataSocket.mergePackets, List.map_cons, List.flatten_cons]
      split
      · exact List.nil_prefix
      · exact (List.prefix_append_right_inj _).mpr (ih _)

theorem waitSend_isPrefix (ds : DataSocket) : ds.waitSend <+: ds.unsent := by
  unfold DataSocket.waitSend
  split
  next => exact List.nil_prefix
  next packet rest hlist =>
    split
    · rw [DataSocket.unsent_of_cons hlist]
      exact List.prefix_append _ _
    · exact mergePackets_isPrefix 0 ds.mSendList

/-- Both functions offer the bytes at the front of the send list. -/
theorem flush_offered_isPrefix (path : FlushPath) (ds : DataSocket) :
    path.offered ds <+: ds.unsent := by
  cases path with
  | quick => exact ds.offered_isPrefix
  | normal => exact (List.take_prefix _ _).trans (waitSend_isPrefix ds)

theorem valid_accepted {path : FlushPath} {ds : DataSocket} {count : ℕ}
    (h : path.valid ds (.accepted count) = true) : count ≤ (path.offered ds).length := by
  cases path with
  | quick =>
      simp only [FlushPath.valid, WritevResult.valid, Bool.and_eq_true, decide_eq_true_eq] at h
      exact h.1.2
  | normal =>
      simp only [FlushPath.valid, Bool.and_eq_true, decide_eq_true_eq] at h
      exact h.2

/-! ## The invariant -/

namespace Flush

/-- What `tmp_len` still has to account for. -/
def pending (s : Flush) : ℕ :=
  match s.pc with
  | .erase tmpLen _ => tmpLen
  | .turn | .done => 0

/-- The part of a packet that a flush does not change. -/
def label (packet : PendingPacket) : List UInt8 × Bool := (packet.data, packet.mCompleteCallback)

/-- The invariant of a flush: the accepted bytes are followed by the unsent ones
that `tmp_len` does not cover, and the send list is what is left of the queue. -/
structure Sound (queue : SendQueue) (s : Flush) : Prop where
  bytes : s.accepted ++ s.ds.unsent.drop s.pending = queue.bytes
  left_le : ∀ packet ∈ s.ds.mSendList, packet.left ≤ packet.data.length
  rest : s.ds.mSendList.map label = (queue.packets.drop s.removed).map label
  removed_le : s.removed ≤ queue.packets.length
  fired : s.fired = (List.range s.removed).filter queue.hasCallback

variable {path : FlushPath} {queue : SendQueue} {s : Flush}

theorem sent_append_unsent (queue : SendQueue) :
    queue.sent ++ (queue.packets.map PendingPacket.unsent).flatten = queue.bytes := by
  have hwhole := queue.whole
  unfold SendQueue.sent SendQueue.bytes
  generalize queue.packets = packets at hwhole ⊢
  cases packets with
  | nil => rfl
  | cons packet rest =>
      -- Behind the first packet nothing was sent yet.
      have hrest : rest.map PendingPacket.unsent = rest.map PendingPacket.data := by
        apply List.map_congr_left
        intro other hother
        simp [PendingPacket.unsent, hwhole other hother]
      rw [List.map_cons, List.flatten_cons, hrest, ← List.append_assoc, PendingPacket.unsent,
        List.take_append_drop]
      rfl

theorem sound_start (ds : DataSocket) (queue : SendQueue) : (start ds queue).Sound queue where
  bytes := sent_append_unsent queue
  left_le := queue.left_le
  rest := rfl
  removed_le := Nat.zero_le _
  fired := rfl

/-- Steps that change neither the list nor `tmp_len` keep the invariant. -/
theorem Sound.of_eq {s' : Flush} (h : s.Sound queue) (hlist : s'.ds.mSendList = s.ds.mSendList)
    (hpending : s'.pending = s.pending) (haccepted : s'.accepted = s.accepted)
    (hremoved : s'.removed = s.removed) (hfired : s'.fired = s.fired) : s'.Sound queue where
  bytes := by
    rw [haccepted, DataSocket.unsent, hlist, hpending]
    exact h.bytes
  left_le := hlist ▸ h.left_le
  rest := by
    rw [hlist, hremoved]
    exact h.rest
  removed_le := hremoved ▸ h.removed_le
  fired := by
    rw [hfired, hremoved]
    exact h.fired

theorem mSendList_procCloseInLoop (ds : DataSocket) :
    ds.procCloseInLoop.1.mSendList = ds.mSendList := by
  unfold DataSocket.procCloseInLoop DataSocket.onClose DataSocket.closeSocket
  split_ifs <;> rfl

theorem Sound.afterSend (h : s.Sound queue) (hpc : s.pc = .turn) {r : WritevResult}
    (hvalid : path.valid s.ds r = true) : (s.afterSend path r).Sound queue := by
  have hpending : s.pending = 0 := by rw [pending, hpc]
  cases r with
  | accepted count =>
      have hcount := valid_accepted hvalid
      obtain ⟨behind, hbehind⟩ := flush_offered_isPrefix path s.ds
      refine ⟨?_, h.left_le, h.rest, h.removed_le, h.fired⟩
      have htake : (path.offered s.ds).take count = s.ds.unsent.take count := by
        rw [← hbehind, List.take_append_of_le_length hcount]
      have hbytes := h.bytes
      rw [hpending, List.drop_zero] at hbytes
      simp only [Flush.afterSend, pending]
      rw [htake, List.append_assoc, List.take_append_drop]
      exact hbytes
  | wouldBlock => exact h.of_eq rfl hpending.symm rfl rfl rfl
  | error =>
      exact h.of_eq (mSendList_procCloseInLoop s.ds) hpending.symm rfl rfl rfl

theorem Sound.afterErase (h : s.Sound queue) (full : Bool)
    (hbytes : s.accepted ++ s.ds.unsent = queue.bytes) :
    (s.afterErase full).Sound queue := by
  unfold Flush.afterErase
  split
  · exact ⟨hbytes, h.left_le, h.rest, h.removed_le, h.fired⟩
  · exact ⟨hbytes, h.left_le, h.rest, h.removed_le, h.fired⟩

theorem filter_range_succ (queue : SendQueue) (n : ℕ) :
    (List.range (n + 1)).filter queue.hasCallback =
      (List.range n).filter queue.hasCallback ++ if queue.hasCallback n then [n] else [] := by
  rw [List.range_succ, List.filter_append, List.filter_singleton, Bool.cond_eq_ite]

/-- The first packet of the list is the one at position `removed`. -/
theorem Sound.front (h : s.Sound queue) {packet : PendingPacket} {rest : List PendingPacket}
    (hlist : s.ds.mSendList = packet :: rest) :
    s.removed < queue.packets.length ∧
      queue.hasCallback s.removed = packet.mCompleteCallback ∧
      rest.map label = (queue.packets.drop (s.removed + 1)).map label := by
  have hrest := h.rest
  rw [hlist, List.map_cons] at hrest
  have hlt : s.removed < queue.packets.length := by
    by_contra hge
    rw [List.drop_eq_nil_of_le (by omega)] at hrest
    simp at hrest
  rw [List.drop_eq_getElem_cons hlt, List.map_cons, List.cons.injEq] at hrest
  obtain ⟨hlabel, htail⟩ := hrest
  refine ⟨hlt, ?_, htail⟩
  have hcallback := congrArg Prod.snd hlabel
  simp only [label] at hcallback
  simp [SendQueue.hasCallback, List.getElem?_eq_getElem hlt, hcallback]

theorem Sound.eraseTurn (h : s.Sound queue) {tmpLen : ℕ} {full : Bool}
    (hpc : s.pc = .erase tmpLen full) : (s.eraseTurn tmpLen full).Sound queue := by
  have hpending : s.pending = tmpLen := by rw [pending, hpc]
  have hbytes := h.bytes
  rw [hpending] at hbytes
  unfold Flush.eraseTurn
  split
  next hlist =>
    apply h.afterErase
    simpa [DataSocket.unsent, hlist] using hbytes
  next packet rest hlist =>
    have hleft : packet.left ≤ packet.data.length := h.left_le packet (by simp [hlist])
    have hlength := PendingPacket.length_unsent hleft
    rw [DataSocket.unsent_of_cons hlist] at hbytes
    split
    next htmp =>
      -- The bytes end inside this packet.
      have hshrink : (s.ds.shrinkFront tmpLen).mSendList =
          { packet with left := packet.left - tmpLen } :: rest := by
        simp [DataSocket.shrinkFront, hlist]
      rw [List.drop_append_of_le_length (by omega)] at hbytes
      have hsound : Sound queue { s with ds := s.ds.shrinkFront tmpLen, pc := .turn } := by
        refine ⟨?_, ?_, ?_, h.removed_le, h.fired⟩
        · simp only [pending, List.drop_zero]
          rw [DataSocket.unsent_of_cons hshrink, PendingPacket.unsent_shrink hleft htmp]
          exact hbytes
        · intro other hother
          rw [hshrink, List.mem_cons] at hother
          rcases hother with rfl | hother
          · exact (Nat.sub_le _ _).trans hleft
          · exact h.left_le other (by simp [hlist, hother])
        · rw [hshrink]
          have hrest := h.rest
          rw [hlist] at hrest
          exact hrest
      exact hsound.afterErase full hsound.bytes
    next htmp =>
      -- The packet is covered; it is erased, with its callback called.
      obtain ⟨hlt, hcallback, hrest⟩ := h.front hlist
      have herase : s.ds.eraseFront.mSendList = rest := by
        simp [DataSocket.eraseFront, hlist]
      refine ⟨?_, ?_, ?_, hlt, ?_⟩
      · simp only [pending]
        rw [DataSocket.unsent_eraseFront hlist]
        rw [List.drop_append, hlength, List.drop_eq_nil_of_le (by omega),
          List.nil_append] at hbytes
        exact hbytes
      · intro other hother
        rw [herase] at hother
        exact h.left_le other (by simp [hlist, hother])
      · rw [herase]
        exact hrest
      · simp only [h.fired, filter_range_succ, hcallback]

theorem Sound.next (h : s.Sound queue) {action : FlushAction} {s' : Flush}
    (hnext : s.next path action = some s') : s'.Sound queue := by
  unfold Flush.next at hnext
  split at hnext
  next hpc =>
    split at hnext
    · cases hnext
      exact h.of_eq rfl (by rw [pending, pending, hpc]) rfl rfl rfl
    · cases hnext
  next r hpc =>
    split at hnext
    next hguard =>
      cases hnext
      rw [Bool.and_eq_true] at hguard
      exact h.afterSend hpc hguard.2
    next => cases hnext
  next tmpLen full hpc =>
    cases hnext
    exact h.eraseTurn hpc
  next => cases hnext

theorem sound (h : (system path queue).Reachable s) : s.Sound queue := by
  refine h.invariant ?_ ?_
  · rintro s ⟨ds, -, -, rfl⟩
    exact sound_start ds queue
  · intro s action s' _ hsound hnext
    exact hsound.next hnext

/-- The removed packets have been accepted to their last byte. -/
theorem Sound.bytesOf_isPrefix (h : s.Sound queue) {n : ℕ} (hn : n ≤ s.removed) :
    queue.bytesOf n <+: s.accepted := by
  have hsplit : queue.bytesOf s.removed ++
      ((queue.packets.drop s.removed).map PendingPacket.data).flatten = queue.bytes := by
    rw [SendQueue.bytesOf, ← List.flatten_append, ← List.map_append, List.take_append_drop]
    rfl
  have hrest : (s.ds.mSendList.map PendingPacket.data).flatten =
      ((queue.packets.drop s.removed).map PendingPacket.data).flatten := by
    have hlabels := congrArg (List.map Prod.fst) h.rest
    rw [List.map_map, List.map_map] at hlabels
    exact congrArg List.flatten hlabels
  have hremoved : queue.bytesOf s.removed <+: s.accepted := by
    apply List.prefix_of_prefix_length_le ⟨_, hsplit⟩ ⟨_, h.bytes⟩
    have hlengths := congrArg List.length (hsplit.trans h.bytes.symm)
    have hunsent := length_unsent_le s.ds
    rw [hrest] at hunsent
    simp only [List.length_append, List.length_drop] at hlengths
    omega
  refine List.IsPrefix.trans ?_ hremoved
  refine ⟨(((queue.packets.take s.removed).drop n).map PendingPacket.data).flatten, ?_⟩
  rw [SendQueue.bytesOf, SendQueue.bytesOf, ← List.flatten_append, ← List.map_append]
  congr 2
  conv_rhs => rw [← List.take_append_drop n (queue.packets.take s.removed)]
  rw [List.take_take, Nat.min_eq_left hn]

/-- **Flush integrity.**  Along every flush, by either function and whatever the
kernel returns: before and after each turn the accepted bytes followed by the
unsent ones are the bytes of the queue, and inside the erase loop the same holds
with the `tmp_len` bytes still to be accounted for left out.  The send list is
the queue without the packets removed so far; the complete callbacks called are,
in queue order and once each, those of the removed packets; and all bytes of
these and of the packets before them were accepted. -/
theorem flush_integrity (path : FlushPath) (queue : SendQueue)
    (h : (system path queue).Reachable s) :
    (s.pc = .turn ∨ s.pc = .done →
      s.accepted ++ s.ds.unsent = queue.bytes) ∧
    (∀ tmpLen full, s.pc = .erase tmpLen full →
      s.accepted ++ s.ds.unsent.drop tmpLen = queue.bytes) ∧
    s.removed ≤ queue.packets.length ∧
    s.ds.mSendList.map label = (queue.packets.drop s.removed).map label ∧
    s.fired = (List.range s.removed).filter queue.hasCallback ∧
    ∀ i < s.removed, queue.bytesOf (i + 1) <+: s.accepted := by
  have hsound := sound h
  refine ⟨?_, ?_, hsound.removed_le, hsound.rest, hsound.fired, fun i hi => ?_⟩
  · intro hpc
    have hpending : s.pending = 0 := by rcases hpc with hpc | hpc <;> rw [pending, hpc]
    have hbytes := hsound.bytes
    rwa [hpending] at hbytes
  · intro tmpLen full hpc
    have hpending : s.pending = tmpLen := by rw [pending, hpc]
    have hbytes := hsound.bytes
    rwa [hpending] at hbytes
  · exact hsound.bytesOf_isPrefix hi

/-- A socket with nothing to send, on descriptor 3. -/
def idleSocket : DataSocket where
  mSocket := some 3
  mIsPostFinalClose := false
  mCanWrite := true
  mEventLoop := true
  mIsPostFlush := false
  mRecvBuffer := ⟨[], 0, 0⟩
  mMaxRecvBufferSize := 1024
  mSendList := []
  mUD := none
  mDataCallback := false
  mRecvData := false
  mCheckTime := 0
  mTimer := none
  epollOut := false
  shutWr := false

/-- Two of three bytes of the first packet are left, and an empty packet and
another one follow. -/
def threePackets : SendQueue where
  packets := [⟨[1, 2, 3], 2, true⟩, ⟨[], 0, true⟩, ⟨[4, 5], 2, true⟩]
  left_le := by decide
  whole := by decide

/-- The kernel takes three bytes, which end inside the third packet. -/
theorem flush_integrity_three_packets :
    ∃ s, (system .normal threePackets).run (start idleSocket threePackets)
        [.send (.accepted 3), .erase, .erase, .erase] = some s ∧
      s.pc = .done ∧ s.accepted = [1, 2, 3, 4] ∧ s.fired = [0, 1] ∧
      s.accepted ++ s.ds.unsent = threePackets.bytes := by
  have hbytes (s : Flush) (hrun : (system .normal threePackets).run
      (start idleSocket threePackets) [.send (.accepted 3), .erase, .erase, .erase] = some s)
      (hpc : s.pc = .done) : s.accepted ++ s.ds.unsent = threePackets.bytes := by
    have hinit : (system .normal threePackets).init (start idleSocket threePackets) :=
      ⟨idleSocket, rfl, rfl, rfl⟩
    have hreach := System.reachable_of_run hinit hrun
    exact (flush_integrity .normal threePackets hreach).1 (.inr hpc)
  exact ⟨_, rfl, rfl, rfl, rfl, hbytes _ rfl rfl⟩

end Flush

end Brynet
