import Brynet.Lib.Transition
import Brynet.Net.EventLoop
import Brynet.Net.SessionTable

/-!
# The IO loop of `TcpService`

One worker of a `TcpService`: its `EventLoop`, its session table and all the
sockets it manages, with any number of other threads posting operations to it.

The loop thread is a machine with a program counter (`IOLoopPc`).  A turn of
`loop()` handles the entries that `epoll_wait` returned, then runs the async
procs, then the after-loop procs, then the timers, then the frame callback of
the service.  Wherever the source calls into user code (the enter, data,
complete, disconnect and frame callbacks, and procs and timers of its own), the
machine stops at a place where the user may act on any session by its id
(`userOp`), add a socket (`userAdd`) or post a proc (`userAfter`), any number of
times, before it returns.  On the loop thread these operations take effect at
once, because `pushAsyncProc` runs its argument there.

Other threads only append to `mAsyncProcs`, under its lock.  So one step of the
loop thread may be as long as the code between two places where it leaves the
library: a system call, user code, or the end of a closure.

The objects of a run are numbered, and a deleted object is gone from the heap.
Undefined behaviour is a fault, and a faulty state has no next step:

* `useAfterFree`: a member function of a deleted object is called;
* `nullSocket`: the flush goes on with a socket that a callback has closed;
* `nullBuffer`: `recv` goes on with the buffer of a refused allocation;
* `staleIterator`: a complete callback within `quickFlush` sends on its own
  socket.  `mSendList` is a deque, so `emplace_back` invalidates the iterator that
  the erase loop goes on with once the callback has returned.

The last fields of the state are not in the source.  `wire` is what the kernel
has accepted for each socket.  `trace`, `sent`, `handled` and `delivered` record
what has happened: callbacks, closures and applied operations, the calls of
`send`, those whose lookup was made, and those put into a send list.
-/

namespace Brynet

open MachineInt Memory Transition

/-- Who calls `send`: another thread, or the loop thread. -/
abbrev Caller := Option Thread

/-- The operations on a session id. -/
inductive SessionOp
  | send (packet : List UInt8) (callback : Bool)
  | postShutdown
  | postDisConnect
  | setHeartBeat (checkTime : ℕ)
deriving Repr, DecidableEq

/-- The packet of an operation, if it is a `send`. -/
def SessionOp.packet? : SessionOp → Option (List UInt8)
  | send packet _ => some packet
  | postShutdown | postDisConnect | setHeartBeat _ => none

/-- The closures in `mAsyncProcs`: those of `IOLoopData::send` and
`postSessionAsyncProc`, that of `helpAddChannel`, and those of the user. -/
inductive AsyncProc
  | session (caller : Caller) (sid : SessionId) (op : SessionOp)
  | enter (ds : Ptr)
  | user
deriving Repr, DecidableEq

/-- The closures in `mAfterLoopProcs`. -/
inductive LoopProc
  | socket (ds : Ptr) (proc : AfterProc)
  | user
deriving Repr, DecidableEq

/-- A ping timer in the queue of the `TimerMgr`. -/
structure PingTimer where
  id : ℕ
  ds : Ptr
  mActive : Bool
deriving Repr, DecidableEq

/-- An `epoll_event`: the channel and the bits that `loop()` looks at. -/
structure EpollEntry where
  ds : Ptr
  rdhup : Bool
  readable : Bool
  writable : Bool
deriving Repr, DecidableEq

/-- The virtual calls of `loop()` on a channel. -/
inductive ChannelCall
  | canRecv
  | canSend
  | onClose
deriving Repr, DecidableEq

/-- The calls `loop()` makes for an entry. -/
def EpollEntry.calls (entry : EpollEntry) : List ChannelCall :=
  if entry.rdhup then [.canRecv, .onClose]
  else (if entry.readable then [.canRecv] else []) ++ if entry.writable then [.canSend] else []

/-- The parts of a turn of the loop. -/
inductive LoopPhase
  | poll
  | events
  | async
  | after
  | timers
deriving Repr, DecidableEq

/-- Where the loop thread is.  `full` in the flush says whether `send_len` was
equal to `ready_send_len`, and `size` is that of `mSendList` when the callback was
called. -/
inductive IOLoopPc
  | phase (p : LoopPhase)
  | calls (ds : Ptr) (rest : List ChannelCall)
  | recv (ds : Ptr) (rest : List ChannelCall)
  | dataCallback (ds : Ptr) (retlen tryRecvLen : ℕ) (rest : List ChannelCall)
  | quickFlush (ds : Ptr)
  | erase (ds : Ptr) (tmpLen : ℕ) (full : Bool)
  | completeCallback (ds : Ptr) (tmpLen : ℕ) (full : Bool) (size : ℕ)
  | disConnectCallback (ds : Ptr)
  | userCode (back : LoopPhase)
deriving Repr, DecidableEq

/-- Undefined behaviour the source runs into. -/
inductive Fault
  | useAfterFree
  | nullSocket
  | nullBuffer
  | staleIterator
deriving Repr, DecidableEq

/-- What happens to a socket: `MakeID` returns its id, a callback is called,
`mSocket` is reset, a closure is run, and an operation on an id reaches it. -/
inductive SocketEvent
  | makeID (sid : SessionId)
  | enterCallback
  | dataCallback
  | disConnectCallback
  | closed
  | ran (proc : AfterProc)
  | applied (sid : SessionId)
deriving Repr, DecidableEq

structure IOLoop where
  heap : Ptr → Option DataSocket
  nextPtr : Ptr
  data : IOLoopData
  mAsyncProcs : List AsyncProc
  mCopyAsyncProcs : List AsyncProc
  mAfterLoopProcs : List LoopProc
  mCopyAfterLoopProcs : List LoopProc
  timers : List PingTimer
  nextTimer : ℕ
  entries : List EpollEntry
  pc : IOLoopPc
  fault : Option Fault
  wire : Ptr → List UInt8
  trace : List (Ptr × SocketEvent)
  sent : List (Caller × SessionId × List UInt8)
  handled : List (Caller × SessionId × List UInt8)
  delivered : Ptr → List (Caller × List UInt8)

inductive IOLoopAction
  | threadOp (t : Thread) (sid : SessionId) (op : SessionOp)
  | threadAdd (socket : Sock) (maxRecvBufferSize : ℕ)
  | threadProc
  | poll (entries : List EpollEntry)
  | entry
  | entriesDone
  | call
  | recvLeave
  | recvResult (r : RecvResult)
  | dataReturn (proclen : ℕ)
  | runAsync (linked : Bool)
  | asyncDone
  | runAfter
  | afterDone
  | flushLeave
  | writev (r : WritevResult)
  | erase
  | timer (id : ℕ)
  | userTimer
  | timersDone
  | userOp (sid : SessionId) (op : SessionOp)
  | userAdd (socket : Sock) (maxRecvBufferSize : ℕ) (linked : Bool)
  | userAfter
  | userReturn
deriving Repr, DecidableEq

namespace IOLoop

def initial : IOLoop where
  heap := fun _ => none
  nextPtr := 0
  data := .empty
  mAsyncProcs := []
  mCopyAsyncProcs := []
  mAfterLoopProcs := []
  mCopyAfterLoopProcs := []
  timers := []
  nextTimer := 0
  entries := []
  pc := .phase .poll
  fault := none
  wire := fun _ => []
  trace := []
  sent := []
  handled := []
  delivered := fun _ => []

def log (s : IOLoop) (ds : Ptr) (event : SocketEvent) : IOLoop :=
  { s with trace := s.trace ++ [(ds, event)] }

def goto (s : IOLoop) (pc : IOLoopPc) : IOLoop := { s with pc := pc }

/-! ## Calls on one socket -/

/-- Dereference `ds`. -/
def withSocket (s : IOLoop) (ds : Ptr) (f : DataSocket → IOLoop) : IOLoop :=
  match s.heap ds with
  | some d => f d
  | none => { s with fault := some .useAfterFree }

/-- Store the outcome of a member function of `ds`, which was `d` before: its new
state, and the closures it has pushed. -/
def store (s : IOLoop) (ds : Ptr) (d : DataSocket) (result : DataSocket × List AfterProc) :
    IOLoop :=
  { s with
    heap := Function.update s.heap ds (some result.1)
    mAfterLoopProcs := s.mAfterLoopProcs ++ result.2.map (.socket ds)
    trace := s.trace ++
      if d.mSocket.isSome && result.1.mSocket.isNone then [(ds, .closed)] else [] }

/-- Call a member function of `ds`. -/
def callSocket (s : IOLoop) (ds : Ptr) (f : DataSocket → DataSocket × List AfterProc) :
    IOLoop :=
  s.withSocket ds fun d => s.store ds d (f d)

/-! ## Timers -/

/-- Whether the weak pointer of timer `id` can be locked: the timer is queued, or
`schedule` is holding it. -/
def timerAlive (s : IOLoop) (held id : Option ℕ) : Bool :=
  id.isSome && (id == held || s.timers.any fun timer => some timer.id == id)

/-- `Timer::cancel` on the queued timer `id`. -/
def cancelTimer (s : IOLoop) (id : Option ℕ) : IOLoop :=
  { s with timers := s.timers.map fun timer =>
      if some timer.id = id then { timer with mActive := false } else timer }

def startPingCheckTimer (s : IOLoop) (held : Option ℕ) (ds : Ptr) (d : DataSocket) : IOLoop :=
  if !s.timerAlive held d.mTimer && d.mCheckTime ≠ 0 then
    { s with
      heap := Function.update s.heap ds (some { d with mTimer := some s.nextTimer })
      timers := s.timers ++ [⟨s.nextTimer, ds, true⟩]
      nextTimer := s.nextTimer + 1 }
  else { s with heap := Function.update s.heap ds (some d) }

def setHeartBeat (s : IOLoop) (ds : Ptr) (checkTime : ℕ) : IOLoop :=
  s.withSocket ds fun d =>
    let locked := s.timerAlive none d.mTimer
    let s := if locked then s.cancelTimer d.mTimer else s
    let d := if locked then { d with mTimer := none } else d
    s.startPingCheckTimer none ds { d with mCheckTime := checkTime }

/-- `PingCheck`, called by `schedule`, which holds the timer `held`. -/
def pingCheck (s : IOLoop) (held : Option ℕ) (ds : Ptr) : IOLoop :=
  s.withSocket ds fun d =>
    if d.mRecvData then s.startPingCheckTimer held ds { d with mRecvData := false }
    else s.store ds d d.procCloseInLoop

/-! ## Operations on a session id -/

def applyOp (s : IOLoop) (caller : Caller) (ds : Ptr) : SessionOp → IOLoop
  | .send packet callback =>
      let s := { s with
        delivered := Function.update s.delivered ds (s.delivered ds ++ [(caller, packet)]) }
      s.callSocket ds fun d => d.sendInLoop packet callback
  | .postShutdown => s.callSocket ds DataSocket.postShutdown
  | .postDisConnect => s.callSocket ds DataSocket.postDisConnect
  | .setHeartBeat checkTime => s.setHeartBeat ds checkTime

/-- A log with the packet of `op` added, if it has one. -/
def logSend (log : List (Caller × SessionId × List UInt8)) (caller : Caller) (sid : SessionId)
    (op : SessionOp) : List (Caller × SessionId × List UInt8) :=
  log ++ op.packet?.toList.map fun packet => (caller, sid, packet)

/-- The closure of `IOLoopData::send` and `postSessionAsyncProc`: look up the slot
of `sid`, and apply the operation to its socket if the user data is `sid`. -/
def runOp (s : IOLoop) (caller : Caller) (sid : SessionId) (op : SessionOp) : IOLoop :=
  let s := { s with handled := logSend s.handled caller sid op }
  match s.data.mDataSockets.get sid.index.toNat with
  | some (some ds) => s.withSocket ds fun d =>
      if d.mUD = some sid then (s.log ds (.applied sid)).applyOp caller ds op else s
  | _ => s

/-! ## Entering and leaving -/

/-- `new DataSocket` of `_addDataSocket`. -/
def newSocket (malloc : Allocator) (s : IOLoop) (socket : Sock) (maxRecvBufferSize : ℕ) :
    Option (Ptr × IOLoop) :=
  if maxRecvBufferSize = 0 then none
  else (DataSocket.new malloc socket maxRecvBufferSize).map fun d =>
    (s.nextPtr, { s with
      heap := Function.update s.heap s.nextPtr (some d), nextPtr := s.nextPtr + 1 })

/-- The enter callback of `helpAddChannel` up to the call of the user's; `none`
is the exception of `claimID`. -/
def enterCallback (loopIndex : ℕ) (s : IOLoop) (ds : Ptr) (d : DataSocket) : Option IOLoop :=
  (s.data.makeID loopIndex).map fun (sid, data) =>
    { s with
      data := data.setSocket (some ds) sid
      heap := Function.update s.heap ds
        (some { d with mEventLoop := true, mUD := some sid, mDataCallback := true })
      trace := s.trace ++ [(ds, .makeID sid), (ds, .enterCallback)] }

/-- `delete ds`, with the destructor cancelling the ping timer. -/
def delete (s : IOLoop) (ds : Ptr) : IOLoop :=
  s.withSocket ds fun d =>
    let s := if s.timerAlive none d.mTimer then s.cancelTimer d.mTimer else s
    { s with heap := Function.update s.heap ds none }

/-- The closure of `helpAddChannel`: `onEnterEventLoop`, and `delete` if it fails.
`linked` says whether `SocketNonblock` and `linkChannel` succeed. -/
def enter (loopIndex : ℕ) (s : IOLoop) (ds : Ptr) (linked : Bool) (back : IOLoopPc) :
    Option IOLoop :=
  match s.heap ds with
  | none => some { s with fault := some .useAfterFree }
  | some d =>
      if d.mEventLoop then some (s.delete ds)
      else if linked then (s.enterCallback loopIndex ds d).map fun s => { s with pc := back }
      else some ((s.store ds d (d.closeSocket, [])).delete ds)

/-! ## After-loop procs -/

def procDataSocketClose (s : IOLoop) (sid : SessionId) : IOLoop :=
  { s with data := s.data.procDataSocketClose sid }

/-- The disconnect closure up to the call of the user's callback. -/
def disConnect (s : IOLoop) (ds : Ptr) : IOLoop :=
  s.withSocket ds fun d =>
    match d.mUD with
    | some sid =>
        ((s.procDataSocketClose sid).log ds .disConnectCallback).goto (.disConnectCallback ds)
    | none => s

/-- The flush closure: `mIsPostFlush = false; flush();`. -/
def flush (s : IOLoop) (ds : Ptr) : IOLoop :=
  s.withSocket ds fun d =>
    let s := s.store ds d ({ d with mIsPostFlush := false }, [])
    if !d.mCanWrite || d.mSocket.isNone then s else s.goto (.quickFlush ds)

def runAfterProc (s : IOLoop) : LoopProc → IOLoop
  | .socket ds .flush => (s.log ds (.ran .flush)).flush ds
  | .socket ds .shutdown =>
      (s.log ds (.ran .shutdown)).callSocket ds fun d => (d.procShutdownInLoop, [])
  | .socket ds .disConnect => (s.log ds (.ran .disConnect)).disConnect ds
  | .user => s.goto (.userCode .after)

/-- `quickFlush` after `writev` has returned `r` for a socket that is `d`. -/
def afterWritev (s : IOLoop) (ds : Ptr) (d : DataSocket) : WritevResult → IOLoop
  | .accepted count =>
      let sendLen := toInt32 count
      { s.goto (.erase ds (ofInt32 sendLen) (decide (sendLen = d.readySendLen))) with
        wire := Function.update s.wire ds (s.wire ds ++ d.offered.take count) }
  | .wouldBlock => (s.store ds d (d.blockWrite, [])).goto (.phase .after)
  | .error => (s.store ds d (d.leaveLoop true)).goto (.phase .after)

/-- The end of the erase loop of `quickFlush`. -/
def afterErase (s : IOLoop) (ds : Ptr) (d : DataSocket) (full : Bool) : IOLoop :=
  if full then s.goto (.quickFlush ds)
  else if d.mSocket.isNone then { s with fault := some .nullSocket }
  else (s.store ds d (d.blockWrite, [])).goto (.phase .after)

/-- A turn of the erase loop of `quickFlush`. -/
def eraseTurn (s : IOLoop) (ds : Ptr) (tmpLen : ℕ) (full : Bool) : IOLoop :=
  s.withSocket ds fun d =>
    match d.mSendList with
    | [] => s.afterErase ds d full
    | packet :: _ =>
        if tmpLen < packet.left then
          -- The loop is left, with no byte of `tmpLen` to account for.
          let d' := d.shrinkFront tmpLen
          ((s.store ds d (d', [])).goto (.erase ds 0 full)).afterErase ds d' full
        else if packet.mCompleteCallback then
          s.goto (.completeCallback ds (tmpLen - packet.left) full d.mSendList.length)
        else (s.store ds d (d.eraseFront, [])).goto (.erase ds (tmpLen - packet.left) full)

/-! ## Receiving -/

/-- `recv` after `::recv` has returned `r`. -/
def afterRecv (malloc : Allocator) (s : IOLoop) (ds : Ptr) (d : DataSocket)
    (rest : List ChannelCall) (tryRecvLen : ℕ) : RecvResult → IOLoop
  | .data bytes =>
      match d.recvArrived malloc bytes with
      | none => { s with fault := some .nullBuffer }
      | some arrived =>
          if arrived.mDataCallback then
            ((s.store ds d (arrived, [])).log ds .dataCallback).goto
              (.dataCallback ds bytes.length tryRecvLen rest)
          else
            let turn := arrived.recvUncalled bytes.length tryRecvLen
            (s.store ds d (turn.1, [])).goto (if turn.2 then .recv ds rest else .calls ds rest)
  | .wouldBlock => s.goto (.calls ds rest)
  | .eof | .error => (s.store ds d (d.leaveLoop true)).goto (.calls ds rest)

/-- The next virtual call for the entry that is being handled. -/
def channelCall (s : IOLoop) (ds : Ptr) : List ChannelCall → IOLoop
  | [] => s.goto (.phase .events)
  | .canRecv :: rest => s.goto (.recv ds rest)
  | .canSend :: rest => (s.callSocket ds DataSocket.canSend).goto (.calls ds rest)
  | .onClose :: rest => (s.callSocket ds DataSocket.onClose).goto (.calls ds rest)

/-! ## The machine -/

/-- Whether the kernel may report `entry`: the descriptor is registered, and
writability only while `EPOLLOUT` is armed. -/
def reports (s : IOLoop) (entry : EpollEntry) : Bool :=
  match s.heap entry.ds with
  | some d => d.mEventLoop && d.mSocket.isSome && (!entry.writable || d.epollOut)
  | none => false

/-- Whether the loop thread is in user code. -/
def inUserCode (s : IOLoop) : Bool :=
  match s.pc with
  | .dataCallback .. | .completeCallback .. | .disConnectCallback _ | .userCode _ => true
  | _ => false

/-- Whether `mSendList` of `ds` has grown beyond `size`. -/
def listGrown (s : IOLoop) (ds : Ptr) (size : ℕ) : Bool :=
  match s.heap ds with
  | some d => decide (size < d.mSendList.length)
  | none => false

/-- The return of a callback without a result. -/
def userReturn (s : IOLoop) : Option IOLoop :=
  match s.pc with
  | .completeCallback ds tmpLen full size =>
      if s.listGrown ds size then some { s with fault := some .staleIterator }
      else some ((s.callSocket ds fun d => (d.eraseFront, [])).goto (.erase ds tmpLen full))
  | .disConnectCallback ds => some ((s.delete ds).goto (.phase .after))
  | .userCode back => some (s.goto (.phase back))
  | _ => none

def runAsyncProc (loopIndex : ℕ) (s : IOLoop) (linked : Bool) : AsyncProc → Option IOLoop
  | .session caller sid op => some (s.runOp caller sid op)
  | .enter ds => s.enter loopIndex ds linked (.userCode .async)
  | .user => some (s.goto (.userCode .async))

/-- `schedule` pops the timer `id` and runs it. -/
def fireTimer (s : IOLoop) (id : ℕ) : Option IOLoop :=
  (s.timers.find? fun timer => timer.id = id).map fun timer =>
    let s := { s with timers := s.timers.erase timer }
    if timer.mActive then s.pingCheck (some id) timer.ds else s

/-- The steps of the loop thread that need no user code. -/
def loopNext (malloc : Allocator) (loopIndex : ℕ) (s : IOLoop) :
    IOLoopAction → Option IOLoop
  | .poll entries =>
      if s.pc = .phase .poll ∧ entries.all s.reports ∧ (entries.map EpollEntry.ds).Nodup then
        some { s.goto (.phase .events) with entries := entries }
      else none
  | .entry =>
      match s.pc, s.entries with
      | .phase .events, entry :: rest =>
          some { s.goto (.calls entry.ds entry.calls) with entries := rest }
      | _, _ => none
  | .entriesDone =>
      match s.pc, s.entries with
      | .phase .events, [] =>
          some { s.goto (.phase .async) with
            mCopyAsyncProcs := s.mAsyncProcs, mAsyncProcs := s.mCopyAsyncProcs }
      | _, _ => none
  | .call =>
      match s.pc with
      | .calls ds rest => some (s.channelCall ds rest)
      | _ => none
  | .recvLeave =>
      match s.pc with
      | .recv ds rest =>
          match s.heap ds with
          | some d => if d.tryRecvLen.isNone then some (s.goto (.calls ds rest)) else none
          | none => some { s with fault := some .useAfterFree }
      | _ => none
  | .recvResult r =>
      match s.pc with
      | .recv ds rest =>
          match s.heap ds with
          | some d =>
              match d.tryRecvLen with
              | some tryRecvLen =>
                  if r.valid tryRecvLen then some (s.afterRecv malloc ds d rest tryRecvLen r)
                  else none
              | none => none
          | none => some { s with fault := some .useAfterFree }
      | _ => none
  | .dataReturn proclen =>
      match s.pc with
      | .dataCallback ds retlen tryRecvLen rest =>
          some (s.withSocket ds fun d =>
            let turn := d.recvReturned proclen retlen tryRecvLen
            (s.store ds d (turn.1, [])).goto (if turn.2 then .recv ds rest else .calls ds rest))
      | _ => none
  | .runAsync linked =>
      match s.pc, s.mCopyAsyncProcs with
      | .phase .async, proc :: rest =>
          { s with mCopyAsyncProcs := rest }.runAsyncProc loopIndex linked proc
      | _, _ => none
  | .asyncDone =>
      match s.pc, s.mCopyAsyncProcs with
      | .phase .async, [] =>
          some { s.goto (.phase .after) with
            mCopyAfterLoopProcs := s.mAfterLoopProcs, mAfterLoopProcs := s.mCopyAfterLoopProcs }
      | _, _ => none
  | .runAfter =>
      match s.pc, s.mCopyAfterLoopProcs with
      | .phase .after, proc :: rest =>
          some ({ s with mCopyAfterLoopProcs := rest }.runAfterProc proc)
      | _, _ => none
  | .afterDone =>
      match s.pc, s.mCopyAfterLoopProcs with
      | .phase .after, [] => some (s.goto (.phase .timers))
      | _, _ => none
  | .flushLeave =>
      match s.pc with
      | .quickFlush ds =>
          match s.heap ds with
          | some d => if d.mSendList.isEmpty then some (s.goto (.phase .after)) else none
          | none => some { s with fault := some .useAfterFree }
      | _ => none
  | .writev r =>
      match s.pc with
      | .quickFlush ds =>
          match s.heap ds with
          | some d =>
              if d.mSendList.isEmpty then none
              else if d.mSocket.isNone then some { s with fault := some .nullSocket }
              else if r.valid d.offered.length then some (s.afterWritev ds d r) else none
          | none => some { s with fault := some .useAfterFree }
      | _ => none
  | .erase =>
      match s.pc with
      | .erase ds tmpLen full => some (s.eraseTurn ds tmpLen full)
      | _ => none
  | .timer id => if s.pc = .phase .timers then s.fireTimer id else none
  | .userTimer => if s.pc = .phase .timers then some (s.goto (.userCode .timers)) else none
  | .timersDone =>
      -- The frame callback of the service follows `loop()`.
      if s.pc = .phase .timers then some (s.goto (.userCode .poll)) else none
  | _ => none

/-- The steps of user code on the loop thread. -/
def userNext (malloc : Allocator) (loopIndex : ℕ) (s : IOLoop) : IOLoopAction → Option IOLoop
  | .userOp sid op =>
      some ({ s with sent := logSend s.sent none sid op }.runOp none sid op)
  | .userAdd socket maxRecvBufferSize linked =>
      (s.newSocket malloc socket maxRecvBufferSize).bind fun (ds, s) =>
        s.enter loopIndex ds linked s.pc
  | .userAfter => some { s with mAfterLoopProcs := s.mAfterLoopProcs ++ [.user] }
  | .userReturn => s.userReturn
  | _ => none

/-- The steps of the other threads. -/
def threadNext (malloc : Allocator) (s : IOLoop) : IOLoopAction → Option IOLoop
  | .threadOp t sid op =>
      some { s with
        mAsyncProcs := s.mAsyncProcs ++ [.session (some t) sid op]
        sent := logSend s.sent (some t) sid op }
  | .threadAdd socket maxRecvBufferSize =>
      (s.newSocket malloc socket maxRecvBufferSize).map fun (ds, s) =>
        { s with mAsyncProcs := s.mAsyncProcs ++ [.enter ds] }
  | .threadProc => some { s with mAsyncProcs := s.mAsyncProcs ++ [.user] }
  | _ => none

def next (malloc : Allocator) (loopIndex : ℕ) (s : IOLoop) (action : IOLoopAction) :
    Option IOLoop :=
  if s.fault.isSome then none
  else match action with
    | .threadOp .. | .threadAdd .. | .threadProc => s.threadNext malloc action
    | .userOp .. | .userAdd .. | .userAfter | .userReturn =>
        if s.inUserCode then s.userNext malloc loopIndex action else none
    | _ => s.loopNext malloc loopIndex action

def system (malloc : Allocator) (loopIndex : ℕ) : System IOLoop IOLoopAction where
  init s := s = initial
  next := next malloc loopIndex

end IOLoop

end Brynet
