import Brynet.Utils.Buffer

/-!
# `DataSocket` on its loop thread

The state of one `DataSocket` and its member functions, for the Linux build
without OpenSSL.  Every function here runs on the loop thread of the socket's
`EventLoop`.  A function that posts closures with `pushAfterLoopProc` returns
them, in order, beside the new state; the closures themselves (`AfterProc`)
are run by the loop.

The two loops of the class, `recv` and `quickFlush`, are cut at the calls that
leave the class: at `::recv`, `writev` and the user's callbacks.  What happens
between two such calls is one function here.  The results of the system calls
are the `RecvResult` and `WritevResult` that the kernel may return.
-/

namespace Brynet

open MachineInt Memory

/-- A descriptor number. -/
abbrev Sock := ℕ

/-- `MAX_RW_COUNT`: the most bytes one `recv` or `writev` of Linux transfers. -/
def maxRwCount : ℕ := 0x7ffff000

/-- `union SessionId`, by its three fields; together they are the 64 bits of
the id. -/
structure SessionId where
  loopIndex : UInt16
  index : UInt16
  iid : UInt32
deriving Repr, DecidableEq

/-- A packet of the send list.  `mCompleteCallback` says whether the packet
carries a callback. -/
structure PendingPacket where
  data : List UInt8
  left : ℕ
  mCompleteCallback : Bool
deriving Repr, DecidableEq

/-- The bytes of a packet that were not yet accepted. -/
def PendingPacket.unsent (packet : PendingPacket) : List UInt8 :=
  packet.data.drop (packet.data.length - packet.left)

/-- The closures a `DataSocket` posts with `pushAfterLoopProc`. -/
inductive AfterProc
  | flush
  | shutdown
  | disConnect
deriving Repr, DecidableEq

/-- The state of a `DataSocket`.  `epollOut` and `shutWr` belong to the kernel:
whether `EPOLLOUT` is armed for the descriptor, and whether `shutdown(SHUT_WR)`
was issued on it.  `mEventLoop` says whether the socket has entered its loop, and
`mTimer` is the timer the weak pointer was made from. -/
structure DataSocket where
  mSocket : Option Sock
  mIsPostFinalClose : Bool
  mCanWrite : Bool
  mEventLoop : Bool
  mIsPostFlush : Bool
  mRecvBuffer : Buffer
  mMaxRecvBufferSize : ℕ
  mSendList : List PendingPacket
  mUD : Option SessionId
  mDataCallback : Bool
  mRecvData : Bool
  mCheckTime : ℕ
  mTimer : Option ℕ
  epollOut : Bool
  shutWr : Bool
deriving Repr, DecidableEq

/-- The outcomes of `::recv`: bytes, end of stream, or `-1` with `EWOULDBLOCK`
or another error. -/
inductive RecvResult
  | data (bytes : List UInt8)
  | eof
  | wouldBlock
  | error
deriving Repr, DecidableEq

/-- The outcomes of `writev`: a positive count, or a count that is not positive
with `errno` being `EWOULDBLOCK` or something else. -/
inductive WritevResult
  | accepted (count : ℕ)
  | wouldBlock
  | error
deriving Repr, DecidableEq

/-- What `::recv` may return when asked for `static_cast<int>(tryRecvLen)` bytes. -/
def RecvResult.valid (tryRecvLen : ℕ) : RecvResult → Bool
  | data bytes =>
      1 ≤ bytes.length && bytes.length ≤ ofInt32 (toInt32 tryRecvLen) &&
        bytes.length ≤ maxRwCount
  | eof | wouldBlock | error => true

/-- What `writev` may return when it is offered `total` bytes.  A result of
zero, for an offer of no bytes, leaves `errno` alone and is one of the last two
cases. -/
def WritevResult.valid (total : ℕ) : WritevResult → Bool
  | accepted count => 1 ≤ count && count ≤ total && count ≤ maxRwCount
  | wouldBlock | error => true

namespace DataSocket

def growBufferSize : ℕ := 1024

/-- The constructor.  `none` stands for a refused allocation, after which the
null buffer is dereferenced by the first `recv`. -/
def new (malloc : Allocator) (socket : Sock) (maxRecvBufferSize : ℕ) : Option DataSocket :=
  (Buffer.oxBufferNew malloc (16 * 1024 + growBufferSize)).map fun buffer =>
    { mSocket := some socket
      mIsPostFinalClose := false
      mCanWrite := true
      mEventLoop := false
      mIsPostFlush := false
      mRecvBuffer := buffer
      mMaxRecvBufferSize := maxRecvBufferSize
      mSendList := []
      mUD := none
      mDataCallback := false
      mRecvData := false
      mCheckTime := 0
      mTimer := none
      epollOut := false
      shutWr := false }

/-! ## Sending -/

def runAfterFlush (ds : DataSocket) : DataSocket × List AfterProc :=
  if !ds.mIsPostFlush && !ds.mSendList.isEmpty && ds.mSocket.isSome then
    ({ ds with mIsPostFlush := true }, [.flush])
  else (ds, [])

def sendInLoop (ds : DataSocket) (packet : List UInt8) (callback : Bool) :
    DataSocket × List AfterProc :=
  let pending := { data := packet, left := packet.length, mCompleteCallback := callback }
  { ds with mSendList := ds.mSendList ++ [pending] }.runAfterFlush

/-- `checkWrite`, called while `mSocket` is not null: arms `EPOLLOUT`. -/
def checkWrite (ds : DataSocket) : DataSocket := { ds with epollOut := true }

def removeCheckWrite (ds : DataSocket) : DataSocket :=
  if ds.mSocket.isSome then { ds with epollOut := false } else ds

def canSend (ds : DataSocket) : DataSocket × List AfterProc :=
  { ds.removeCheckWrite with mCanWrite := true }.runAfterFlush

/-! ## Closing -/

def closeSocket (ds : DataSocket) : DataSocket :=
  if ds.mSocket.isSome then { ds with mCanWrite := false, mSocket := none } else ds

def onClose (ds : DataSocket) : DataSocket × List AfterProc :=
  if ds.mIsPostFinalClose then (ds, [])
  else ({ ds.closeSocket with mIsPostFinalClose := true }, [.disConnect])

def procCloseInLoop (ds : DataSocket) : DataSocket × List AfterProc :=
  if ds.mSocket.isNone then (ds, []) else ds.onClose

def procShutdownInLoop (ds : DataSocket) : DataSocket :=
  if ds.mSocket.isSome then { ds with shutWr := true, mCanWrite := false } else ds

/-- The closure of `postDisConnect`, which runs at once on the loop thread. -/
def postDisConnect (ds : DataSocket) : DataSocket × List AfterProc := ds.procCloseInLoop

/-- The closure of `postShutdown`, which runs at once on the loop thread. -/
def postShutdown (ds : DataSocket) : DataSocket × List AfterProc :=
  if ds.mSocket.isSome then (ds, [.shutdown]) else (ds, [])

/-! ## Flushing -/

def maxIovec : ℕ := 1024

/-- The packets one `writev` offers. -/
def iov (ds : DataSocket) : List PendingPacket := ds.mSendList.take maxIovec

/-- The bytes one `writev` offers. -/
def offered (ds : DataSocket) : List UInt8 := (ds.iov.map PendingPacket.unsent).flatten

/-- `ready_send_len`: the lengths of the offered packets, summed up in an `int`. -/
def readySendLen (ds : DataSocket) : ℤ := toInt32 (ds.iov.map PendingPacket.left).sum

/-- The end of `quickFlush` and of `recv` when they leave with `must_close`. -/
def leaveLoop (ds : DataSocket) (mustClose : Bool) : DataSocket × List AfterProc :=
  if mustClose then ds.procCloseInLoop else (ds, [])

/-- A `writev` that was not or only partly accepted, on a socket that is open. -/
def blockWrite (ds : DataSocket) : DataSocket := { ds with mCanWrite := false }.checkWrite

/-- `it = mSendList.erase(it)` of the erase loop; its iterator is the front. -/
def eraseFront (ds : DataSocket) : DataSocket := { ds with mSendList := ds.mSendList.tail }

/-- `b.left -= tmp_len` of the erase loop, on the front packet. -/
def shrinkFront (ds : DataSocket) (tmpLen : ℕ) : DataSocket :=
  match ds.mSendList with
  | [] => ds
  | packet :: rest =>
      { ds with mSendList := { packet with left := packet.left - tmpLen } :: rest }

/-! ## Receiving -/

/-- `growRecvBuffer` once there is a buffer.  `none` is the null pointer of a
refused allocation being dereferenced. -/
def growRecvBuffer (malloc : Allocator) (ds : DataSocket) : Option DataSocket :=
  let buf := ds.mRecvBuffer
  let size := sizeAdd buf.oxBufferGetsize growBufferSize
  if size ≤ ds.mMaxRecvBufferSize then
    (Buffer.oxBufferNew malloc size).map fun newBuffer =>
      let bytes := slice buf.data buf.readPos buf.oxBufferGetreadvalidcount
      { ds with mRecvBuffer := (newBuffer.oxBufferWrite bytes).1 }
  else some ds

/-- `tryRecvLen` of the next turn of the loop in `recv`, if there is one. -/
def tryRecvLen (ds : DataSocket) : Option ℕ :=
  if ds.mSocket.isSome && ds.mRecvBuffer.oxBufferGetwritevalidcount ≠ 0 then
    some ds.mRecvBuffer.oxBufferGetwritevalidcount
  else none

/-- From the return of `::recv` with some bytes to the call of the data
callback. -/
def recvArrived (malloc : Allocator) (ds : DataSocket) (bytes : List UInt8) :
    Option DataSocket :=
  let buf := (ds.mRecvBuffer.store bytes).oxBufferAddwritepos bytes.length
  let ds := { ds with mRecvBuffer := buf }
  let grown :=
    if buf.oxBufferGetreadvalidcount = buf.oxBufferGetsize then ds.growRecvBuffer malloc
    else some ds
  grown.map fun ds => if ds.mDataCallback then { ds with mRecvData := true } else ds

/-- The arguments of the data callback. -/
def recvView (ds : DataSocket) : List UInt8 :=
  slice ds.mRecvBuffer.data ds.mRecvBuffer.readPos ds.mRecvBuffer.oxBufferGetreadvalidcount

/-- `ox_buffer_adjustto_head`, at the end of a turn of the loop in `recv`. -/
def recvAdjust (ds : DataSocket) : DataSocket :=
  if ds.mRecvBuffer.oxBufferGetwritevalidcount = 0 ∨
      ds.mRecvBuffer.oxBufferGetreadvalidcount = 0 then
    { ds with mRecvBuffer := ds.mRecvBuffer.oxBufferAdjusttoHead }
  else ds

/-- From the return of the data callback to the end of the turn: the new state,
and whether the loop goes on. -/
def recvReturned (ds : DataSocket) (proclen retlen tryRecvLen : ℕ) : DataSocket × Bool :=
  if proclen ≤ ds.mRecvBuffer.oxBufferGetreadvalidcount then
    let ds := { ds with mRecvBuffer := ds.mRecvBuffer.oxBufferAddreadpos proclen }
    (ds.recvAdjust, !decide ((retlen : ℤ) < toInt32 tryRecvLen))
  else (ds, false)

/-- The end of the turn when there is no data callback. -/
def recvUncalled (ds : DataSocket) (retlen tryRecvLen : ℕ) : DataSocket × Bool :=
  (ds.recvAdjust, !decide ((retlen : ℤ) < toInt32 tryRecvLen))

/-! ## What receiving and closing leave alone -/

variable {d d' : DataSocket} {malloc : Allocator}

/-- What differs is only the receive buffer and the mark that data came. -/
def Quiet (d d' : DataSocket) : Prop :=
  ∃ buffer recvData, d' = { d with mRecvBuffer := buffer, mRecvData := recvData }

theorem quiet_growRecvBuffer (h : d.growRecvBuffer malloc = some d') : Quiet d d' := by
  unfold growRecvBuffer at h
  dsimp only at h
  split at h
  · obtain ⟨buffer, -, rfl⟩ := Option.map_eq_some_iff.mp h
    exact ⟨_, _, rfl⟩
  · cases h
    exact ⟨_, _, rfl⟩

theorem quiet_recvArrived {bytes : List UInt8} (h : d.recvArrived malloc bytes = some d') :
    Quiet d d' := by
  unfold recvArrived at h
  obtain ⟨grown, hgrown, rfl⟩ := Option.map_eq_some_iff.mp h
  have hquiet : Quiet d grown := by
    split at hgrown
    · obtain ⟨buffer, recvData, rfl⟩ := quiet_growRecvBuffer hgrown
      exact ⟨_, _, rfl⟩
    · cases hgrown
      exact ⟨_, _, rfl⟩
  obtain ⟨buffer, recvData, rfl⟩ := hquiet
  split <;> exact ⟨_, _, rfl⟩

theorem quiet_recvAdjust (d : DataSocket) : Quiet d d.recvAdjust := by
  unfold recvAdjust
  split <;> exact ⟨_, _, rfl⟩

theorem quiet_recvReturned (d : DataSocket) (proclen retlen tryRecvLen : ℕ) :
    Quiet d (d.recvReturned proclen retlen tryRecvLen).1 := by
  unfold recvReturned
  split
  · obtain ⟨buffer, recvData, hadjust⟩ := quiet_recvAdjust
      { d with mRecvBuffer := d.mRecvBuffer.oxBufferAddreadpos proclen }
    exact ⟨buffer, recvData, hadjust⟩
  · exact ⟨_, _, rfl⟩

theorem mSocket_procCloseInLoop (hfinal : d.mIsPostFinalClose = d.mSocket.isNone) :
    d.procCloseInLoop.1.mSocket = none := by
  cases hsocket : d.mSocket <;>
    simp [procCloseInLoop, onClose, closeSocket, hsocket, hfinal]

end DataSocket

end Brynet
