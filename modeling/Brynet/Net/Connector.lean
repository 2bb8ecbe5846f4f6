import Brynet.Lib.OrderedMap
import Brynet.Lib.Transition
import Brynet.Net.DataSocket

/-!
# `AsyncConnector`

The worker thread of an `AsyncConnector` from its start to its end, with other
threads calling `asyncConnect` and one of them `stopWorkerThread`.

The worker is a machine with a program counter (`WorkPhase`): it runs the closures
of its `EventLoop`, then `checkConnectStatus`, then `checkTimeout`, and after the
last turn `causeAllFailed`.  A step is the code between two calls of user
callbacks.  `depth` is the number of callbacks on the stack of the worker; the
callbacks may do what they like with descriptors that are not the connector's,
and may call `asyncConnect`, whose closure runs at once on this thread, inside
the call and so under its lock.  System calls return anything they may; the
kernel gives a new socket any number that is not in use.  When a request times
out is left open.

`mThreadGuard` is a `std::shared_mutex` in a C++17 build, locked shared by
`asyncConnect`, and else a `std::mutex` (`sharedGuard` says which).  The stopping
thread holds it from `stopWorkerThread`'s first line until the join returns, and
the worker while a callback inside one of its own `asyncConnect` calls runs.

The requests are numbered as they are accepted.  `mOpen` are the descriptors in
use in the process and `mOwned` those of them which the connector has to close or
hand over; these two and `called`, the callbacks called with whether the success
callback was, are not in the source.
-/

namespace Brynet

open Transition

/-- The closures in the queue of the connector's loop. -/
inductive ConnectProc
  | request (id : ℕ)
  | stop
deriving Repr, DecidableEq

def ConnectProc.request? : ConnectProc → Option ℕ
  | request id => some id
  | stop => none

/-- What the system calls of `processConnect` come to. -/
inductive ConnectResult
  | noSocket
  | connected (fd : Sock)
  | refused (fd : Sock)
  | inProgress (fd : Sock)
deriving Repr, DecidableEq

def ConnectResult.fd? : ConnectResult → Option Sock
  | noSocket => none
  | connected fd | refused fd | inProgress fd => some fd

/-- Where the worker is, under the callbacks.  In `completing` the callback for
`fd` was called from `checkConnectStatus`. -/
inductive WorkPhase
  | turn
  | procs (rest : List ConnectProc)
  | status (rest : List (Sock × Bool))
  | completing (fd : Sock) (success : Bool) (rest : List (Sock × Bool))
  | timeouts (it : Option Sock)
  | failing (rest : List (Sock × ℕ))
  | ended
deriving Repr, DecidableEq

/-- The thread that calls `stopWorkerThread`. -/
inductive StopPhase
  | running
  | joining
  | stopped
deriving Repr, DecidableEq

structure Connector where
  mAsyncProcs : List ConnectProc
  mIsRun : Bool
  mConnectingInfos : List (Sock × ℕ)
  mFDSet : List Sock
  phase : WorkPhase
  depth : ℕ
  waiting : Bool
  stop : StopPhase
  mOpen : List Sock
  mOwned : List Sock
  accepted : ℕ
  called : List (ℕ × Bool)
deriving Repr, DecidableEq

inductive ConnectorAction
  | asyncConnect
  | stopWorkerThread
  | join
  | openFd (fd : Sock)
  | closeFd (fd : Sock)
  | turn
  | runProc (r : ConnectResult)
  | poll (ready : List (Sock × Bool))
  | status
  | complete
  | timeout (expired : Bool)
  | fail
  | callbackConnect (r : ConnectResult)
  | callbackReturn
deriving Repr, DecidableEq

namespace Connector

/-- After `startWorkerThread`, with `used` the descriptors in use. -/
def start (used : List Sock) : Connector where
  mAsyncProcs := []
  mIsRun := true
  mConnectingInfos := []
  mFDSet := []
  phase := .turn
  depth := 0
  waiting := false
  stop := .running
  mOpen := used
  mOwned := []
  accepted := 0
  called := []

/-- Call a callback of request `id`. -/
def callback (s : Connector) (id : ℕ) (success : Bool) : Connector :=
  { s with called := s.called ++ [(id, success)], depth := s.depth + 1 }

def socketClose (s : Connector) (fd : Sock) : Connector :=
  { s with
    mOpen := s.mOpen.filter fun other => other ≠ fd
    mOwned := s.mOwned.filter fun other => other ≠ fd }

def fdsetRemove (s : Connector) (fd : Sock) : Connector :=
  { s with mFDSet := s.mFDSet.filter fun other => other ≠ fd }

def fdsetAdd (s : Connector) (fd : Sock) : Connector :=
  { s with mFDSet := if fd ∈ s.mFDSet then s.mFDSet else s.mFDSet ++ [fd] }

def eraseInfo (s : Connector) (fd : Sock) : Connector :=
  { s with mConnectingInfos := OrderedMap.erase fd s.mConnectingInfos }

def processConnect (s : Connector) (id : ℕ) : ConnectResult → Connector
  | .noSocket => s.callback id false
  | .connected fd => { s with mOpen := fd :: s.mOpen }.callback id true
  | .refused _ => s.callback id false
  | .inProgress fd =>
      { s with
        mOpen := fd :: s.mOpen
        mOwned := fd :: s.mOwned
        mConnectingInfos := OrderedMap.assign fd id s.mConnectingInfos }.fdsetAdd fd

/-- Whether the kernel may give this result: a new number is not in use. -/
def mayReturn (s : Connector) (r : ConnectResult) : Bool :=
  r.fd?.all fun fd => fd ∉ s.mOpen

/-! ## The worker thread -/

/-- Whether the worker runs code of its own, not a callback. -/
def atWork (s : Connector) : Bool := s.depth = 0 && !s.waiting

/-- The top of the loop in the thread function. -/
def nextTurn (s : Connector) : Connector :=
  if s.mIsRun then { s with phase := .procs s.mAsyncProcs, mAsyncProcs := [] }
  else { s with phase := .failing s.mConnectingInfos, mConnectingInfos := [] }

def runProc (s : Connector) (r : ConnectResult) : ConnectProc → Connector
  | .request id => s.processConnect id r
  | .stop => { s with mIsRun := false }

/-- Whether `poll` may report these descriptors, in the order of a `std::set`. -/
def mayPoll (s : Connector) (ready : List (Sock × Bool)) : Bool :=
  (ready.map Prod.fst).Pairwise (· < ·) && ready.all fun (fd, _) => fd ∈ s.mFDSet

/-- The call of a callback of request `id`; the success callback gets the socket. -/
def callStatus (s : Connector) (fd : Sock) (success : Bool) (rest : List (Sock × Bool)) (id : ℕ) :
    Connector :=
  { s with
    phase := .completing fd success rest
    mOwned := if success then s.mOwned.filter fun other => other ≠ fd else s.mOwned }.callback
      id success

/-- A turn of the loop over `total_fds` up to the callback. -/
def status (s : Connector) (fd : Sock) (success : Bool) (rest : List (Sock × Bool)) : Connector :=
  match OrderedMap.find fd s.mConnectingInfos with
  | none => { s.fdsetRemove fd with phase := .status rest }
  | some id => (s.fdsetRemove fd).callStatus fd success rest id

/-- The rest of that turn: the entry is erased, and the socket that was not given
to the success callback is closed. -/
def complete (s : Connector) (fd : Sock) (success : Bool) (rest : List (Sock × Bool)) :
    Connector :=
  let s := { s.eraseInfo fd with phase := .status rest }
  if success then s else s.socketClose fd

/-- A turn of the loop of `checkTimeout`, with the iterator at `fd`, whose request
is `id`. -/
def timeout (s : Connector) (fd : Sock) (id : ℕ) (expired : Bool) : Connector :=
  let it := OrderedMap.after fd s.mConnectingInfos
  if expired then
    { (((s.fdsetRemove fd).eraseInfo fd).socketClose fd) with phase := .timeouts it }.callback
      id false
  else { s with phase := .timeouts it }

/-- A turn of the loop of `causeAllFailed`. -/
def fail (s : Connector) (fd : Sock) (id : ℕ) (rest : List (Sock × ℕ)) : Connector :=
  { ((s.fdsetRemove fd).socketClose fd) with phase := .failing rest }.callback id false

def workNext (s : Connector) (action : ConnectorAction) : Option Connector :=
  match s.phase, action with
  | .turn, .turn => some s.nextTurn
  | .procs (proc :: rest), .runProc r =>
      if s.mayReturn r then some ({ s with phase := .procs rest }.runProc r proc) else none
  | .procs [], .poll ready =>
      if s.mayPoll ready then some { s with phase := .status ready } else none
  | .status ((fd, success) :: rest), .status => some (s.status fd success rest)
  | .status [], .status =>
      some { s with phase := .timeouts (OrderedMap.first s.mConnectingInfos) }
  | .completing fd success rest, .complete => some (s.complete fd success rest)
  | .timeouts (some fd), .timeout expired =>
      (OrderedMap.find fd s.mConnectingInfos).map fun id => s.timeout fd id expired
  | .timeouts none, .timeout _ => some { s with phase := .turn }
  | .failing ((fd, id) :: rest), .fail => some (s.fail fd id rest)
  | .failing [], .fail => some { s with phase := .ended }
  | _, _ => none

/-! ## The guard -/

/-- Whether a callback can lock `mThreadGuard`: nobody has locked it exclusively. -/
def lockable (sharedGuard : Bool) (s : Connector) : Bool :=
  s.stop ≠ .joining && (sharedGuard || s.depth ≤ 1)

/-- `asyncConnect` in a callback.  It waits for the guard, or runs the closure. -/
def callbackConnect (sharedGuard : Bool) (s : Connector) (r : ConnectResult) : Connector :=
  if s.lockable sharedGuard then { s with accepted := s.accepted + 1 }.processConnect s.accepted r
  else { s with waiting := true }

def next (sharedGuard : Bool) (s : Connector) (action : ConnectorAction) : Option Connector :=
  match action with
  | .asyncConnect =>
      if s.stop = .running ∧ (sharedGuard ∨ s.depth ≤ 1) then
        some { s with
          mAsyncProcs := s.mAsyncProcs ++ [.request s.accepted], accepted := s.accepted + 1 }
      else none
  | .stopWorkerThread =>
      if s.stop = .running ∧ s.depth ≤ 1 then
        some { s with stop := .joining, mAsyncProcs := s.mAsyncProcs ++ [.stop] }
      else none
  | .join =>
      if s.stop = .joining ∧ s.phase = .ended then some { s with stop := .stopped } else none
  | .openFd fd => if fd ∉ s.mOpen then some { s with mOpen := fd :: s.mOpen } else none
  | .closeFd fd => if fd ∉ s.mOwned then some (s.socketClose fd) else none
  | .callbackConnect r =>
      if 0 < s.depth ∧ !s.waiting ∧ s.mayReturn r then some (s.callbackConnect sharedGuard r)
      else none
  | .callbackReturn =>
      if 0 < s.depth ∧ !s.waiting then some { s with depth := s.depth - 1 } else none
  | _ => if s.atWork then s.workNext action else none

def system (sharedGuard : Bool) : System Connector ConnectorAction where
  init s := ∃ used, s = start used
  next := next sharedGuard

end Connector

end Brynet
