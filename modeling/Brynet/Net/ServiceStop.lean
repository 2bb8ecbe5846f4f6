import Brynet.Net.IOLoop

/-!
# Stopping a `TcpService`

The threads of a `TcpService` and its `mIOLoopGuard`: the `threadNum` workers, one
thread that calls `stopWorkerThread`, and any other threads.  Every call that
starts from a session id looks up the loop of the session under the guard
(`getIOLoopDataBySocketID`, `getEventLoopBySocketID`), and so do `wakeupAll`,
`getRandomEventLoop` and `addDataSocket`.  Of a turn of a worker only this
matters: when it runs library code, when it runs a callback of the user, and when
it waits for the guard.  The enter callback of `WrapTcpService` is library code
that makes such a lookup, before it calls the user's.

`stopWorkerThread` keeps the guard while it joins the workers, one by one.

The invariant is `Unawaited`: while the stopping thread holds the guard no worker waits
for it.  It is the condition on the runs, spread over the steps: `stopWorkerThread` finds
no worker waiting, and afterwards no worker asks.
-/

namespace Brynet

open Transition

/-- Who holds `mIOLoopGuard`. -/
inductive GuardHolder
  | stopper
  | worker (i : ℕ)
  | other (t : Thread)
deriving Repr, DecidableEq

/-- The calls of the public interface that lock `mIOLoopGuard`. -/
inductive GuardedCall
  | session (op : SessionOp)
  | wakeup
  | wakeupAll
  | getRandomEventLoop
  | addDataSocket
deriving Repr, DecidableEq

/-- The closures in the queue of a worker: the enter closure of a socket, which was
added through `WrapTcpService` or not, and others that end in user code. -/
inductive ServiceProc
  | enter (wrapped : Bool)
  | user
deriving Repr, DecidableEq

/-- Where a worker is: at the top of its loop, in library code of a turn, in a
callback, waiting for the guard, or holding it.  From the last two it goes on in a
callback. -/
inductive WorkerPc
  | top
  | turn
  | callback
  | waiting
  | holding
  | ended
deriving Repr, DecidableEq

structure ServiceWorker where
  pc : WorkerPc
  mAsyncProcs : List ServiceProc
deriving Repr, DecidableEq

/-- The stopping thread: `joining i` is the turn of its loop for worker `i`. -/
inductive ServiceStop
  | running
  | joining (i : ℕ)
  | stopped
deriving Repr, DecidableEq

structure Service where
  mIOLoopGuard : Option GuardHolder
  mRunIOLoop : Bool
  workers : ℕ → ServiceWorker
  stop : ServiceStop

/-- What a worker does. -/
inductive WorkerStep
  | loop
  | runProc
  | callback
  | call (call : GuardedCall)
  | acquire
  | unlock
  | callbackReturn
  | turnDone
deriving Repr, DecidableEq

inductive ServiceAction
  | addSession (i : ℕ) (wrapped : Bool)
  | post (i : ℕ)
  | otherLock (t : Thread) (call : GuardedCall)
  | otherUnlock (t : Thread)
  | worker (i : ℕ) (step : WorkerStep)
  | stopWorkerThread
  | join
deriving Repr, DecidableEq

namespace Service

/-- After `startWorkerThread`. -/
def start : Service where
  mIOLoopGuard := none
  mRunIOLoop := true
  workers := fun _ => ⟨.top, []⟩
  stop := .running

def setWorker (s : Service) (i : ℕ) (worker : ServiceWorker) : Service :=
  { s with workers := Function.update s.workers i worker }

def goto (s : Service) (i : ℕ) (pc : WorkerPc) : Service :=
  s.setWorker i { s.workers i with pc := pc }

/-- `pushAsyncProc` on the loop of worker `i`. -/
def push (s : Service) (i : ℕ) (proc : ServiceProc) : Service :=
  s.setWorker i { s.workers i with mAsyncProcs := (s.workers i).mAsyncProcs ++ [proc] }

/-- Worker `i` locks `mIOLoopGuard`, or waits for it. -/
def lock (s : Service) (i : ℕ) : Service :=
  if s.mIOLoopGuard = none then { s.goto i .holding with mIOLoopGuard := some (.worker i) }
  else s.goto i .waiting

/-- Worker `i` runs a closure of its queue. -/
def runProc (s : Service) (i : ℕ) : ServiceProc → Service
  | .enter true => s.lock i
  | .enter false | .user => s.goto i .callback

def workerNext (s : Service) (i : ℕ) (step : WorkerStep) : Option Service :=
  match (s.workers i).pc, step with
  | .top, .loop => some (s.goto i (if s.mRunIOLoop then .turn else .ended))
  | .turn, .runProc =>
      match (s.workers i).mAsyncProcs with
      | proc :: rest =>
          some ((s.setWorker i { s.workers i with mAsyncProcs := rest }).runProc i proc)
      | [] => none
  | .turn, .callback => some (s.goto i .callback)
  | .turn, .turnDone => some (s.goto i .top)
  | .callback, .call _ => some (s.lock i)
  | .callback, .callbackReturn => some (s.goto i .turn)
  | .waiting, .acquire => if s.mIOLoopGuard = none then some (s.lock i) else none
  | .holding, .unlock => some { s.goto i .callback with mIOLoopGuard := none }
  | _, _ => none

def next (threadNum : ℕ) (s : Service) (action : ServiceAction) : Option Service :=
  match action with
  | .addSession i wrapped => if i < threadNum then some (s.push i (.enter wrapped)) else none
  | .post i => if i < threadNum then some (s.push i .user) else none
  | .otherLock t _ =>
      if s.mIOLoopGuard = none then some { s with mIOLoopGuard := some (.other t) } else none
  | .otherUnlock t =>
      if s.mIOLoopGuard = some (.other t) then some { s with mIOLoopGuard := none } else none
  | .worker i step => if i < threadNum then s.workerNext i step else none
  | .stopWorkerThread =>
      if s.stop = .running ∧ s.mIOLoopGuard = none then
        some { s with mIOLoopGuard := some .stopper, mRunIOLoop := false, stop := .joining 0 }
      else none
  | .join =>
      match s.stop with
      | .joining i =>
          if threadNum ≤ i then some { s with stop := .stopped, mIOLoopGuard := none }
          else if (s.workers i).pc = .ended then some { s with stop := .joining (i + 1) }
          else none
      | .running | .stopped => none

def system (threadNum : ℕ) : System Service ServiceAction where
  init s := s = start
  next := next threadNum

/-- The stopping thread holds the guard and waits for a worker that waits for the
guard. -/
def Deadlocked (threadNum : ℕ) (s : Service) : Prop :=
  s.mIOLoopGuard = some .stopper ∧
    ∃ i < threadNum, s.stop = .joining i ∧ (s.workers i).pc = .waiting

/-! ## Who may wait -/

/-- Whether a worker asks for the guard in this step: in a callback that makes such
a call, or in the enter callback of `WrapTcpService`. -/
def asks (s : Service) : ServiceAction → Bool
  | .worker _ (.call _) => true
  | .worker i .runProc => (s.workers i).mAsyncProcs.head? = some (.enter true)
  | _ => false

/-- Whether no worker asks for the guard while the stopping thread holds it, and
none waits for it when the stopping thread takes it. -/
def leavesGuard (threadNum : ℕ) (s : Service) : ServiceAction → Bool
  | .stopWorkerThread => (List.range threadNum).all fun i => (s.workers i).pc ≠ .waiting
  | action => !(s.asks action && s.mIOLoopGuard = some .stopper)

variable {s s' : Service} {threadNum i : ℕ} {pc : WorkerPc}

/-- While the stopping thread holds the guard nobody waits for it. -/
def Unawaited (threadNum : ℕ) (s : Service) : Prop :=
  s.mIOLoopGuard = some .stopper → ∀ i < threadNum, (s.workers i).pc ≠ .waiting

/-- A worker changes, and does not wait after it. -/
theorem Unawaited.setWorker (h : s.Unawaited threadNum) {worker : ServiceWorker}
    (hworker : s.mIOLoopGuard = some .stopper → worker.pc ≠ .waiting) :
    (s.setWorker i worker).Unawaited threadNum := by
  intro hguard j hj
  simp only [Service.setWorker]
  by_cases heq : j = i
  · rw [heq, Function.update_self]
    exact hworker hguard
  · rw [Function.update_of_ne heq]
    exact h hguard j hj

theorem Unawaited.push (h : s.Unawaited threadNum) (hi : i < threadNum) (proc : ServiceProc) :
    (s.push i proc).Unawaited threadNum :=
  h.setWorker fun hguard => h hguard i hi

theorem Unawaited.goto (h : s.Unawaited threadNum) (hpc : pc ≠ .waiting) :
    (s.goto i pc).Unawaited threadNum :=
  h.setWorker fun _ => hpc

/-- A worker asks for the guard while the stopping thread does not hold it. -/
theorem unawaited_lock (hguard : s.mIOLoopGuard ≠ some .stopper) :
    (s.lock i).Unawaited threadNum := by
  intro hstopper
  unfold lock at hstopper
  split at hstopper
  · cases hstopper
  · exact absurd hstopper hguard

theorem Unawaited.workerNext (h : s.Unawaited threadNum) (hi : i < threadNum) {step : WorkerStep}
    (hasks : s.asks (.worker i step) = true → s.mIOLoopGuard ≠ some .stopper)
    (hnext : s.workerNext i step = some s') : s'.Unawaited threadNum := by
  unfold Service.workerNext at hnext
  split at hnext
  -- A turn begins, or the frame callback follows it.
  next =>
    cases hnext
    refine h.goto ?_
    split <;> simp
  next =>
    split at hnext
    next proc rest hprocs =>
      cases hnext
      have hpopped : (s.setWorker i { s.workers i with mAsyncProcs := rest }).Unawaited
          threadNum := h.setWorker fun hguard => h hguard i hi
      -- The enter callback of `WrapTcpService` asks for the guard.
      match proc with
      | .enter true => exact unawaited_lock (hasks (by simp [asks, hprocs]))
      | .enter false => exact hpopped.goto (by simp)
      | .user => exact hpopped.goto (by simp)
    next => cases hnext
  next =>
    cases hnext
    exact h.goto (by simp)
  next =>
    cases hnext
    exact h.goto (by simp)
  next =>
    cases hnext
    exact unawaited_lock (hasks rfl)
  next =>
    cases hnext
    exact h.goto (by simp)
  next =>
    simp only [Option.ite_none_right_eq_some, Option.some.injEq] at hnext
    obtain ⟨hnone, rfl⟩ := hnext
    exact unawaited_lock (by simp [hnone])
  next =>
    cases hnext
    rintro ⟨⟩
  next => cases hnext

theorem Unawaited.next (h : s.Unawaited threadNum) {action : ServiceAction}
    (hleaves : s.leavesGuard threadNum action = true)
    (hnext : s.next threadNum action = some s') : s'.Unawaited threadNum := by
  cases action with
  -- What other threads post does not move the worker.
  | addSession i wrapped =>
      simp only [Service.next, Option.ite_none_right_eq_some, Option.some.injEq] at hnext
      obtain ⟨hi, rfl⟩ := hnext
      exact h.push hi _
  | post i =>
      simp only [Service.next, Option.ite_none_right_eq_some, Option.some.injEq] at hnext
      obtain ⟨hi, rfl⟩ := hnext
      exact h.push hi _
  -- While another thread holds the guard, the stopping thread does not.
  | otherLock t call =>
      simp only [Service.next, Option.ite_none_right_eq_some, Option.some.injEq] at hnext
      obtain ⟨-, rfl⟩ := hnext
      rintro ⟨⟩
  | otherUnlock t =>
      simp only [Service.next, Option.ite_none_right_eq_some, Option.some.injEq] at hnext
      obtain ⟨-, rfl⟩ := hnext
      rintro ⟨⟩
  -- A worker that asks is excluded by the condition.
  | worker i step =>
      simp only [Service.next, Option.ite_none_right_eq_some] at hnext
      refine h.workerNext hnext.1 (fun hasks => ?_) hnext.2
      simpa [leavesGuard, hasks] using hleaves
  -- The guard is taken here, and the condition is that no worker waits for it.
  | stopWorkerThread =>
      simp only [Service.next, Option.ite_none_right_eq_some, Option.some.injEq] at hnext
      obtain ⟨-, rfl⟩ := hnext
      intro _ i hi
      simp only [leavesGuard, List.all_eq_true, List.mem_range, decide_eq_true_eq] at hleaves
      exact hleaves i hi
  -- The guard is released when all workers are joined.
  | join =>
      simp only [Service.next] at hnext
      split at hnext
      next i _ =>
        split at hnext
        next =>
          cases hnext
          rintro ⟨⟩
        next =>
          simp only [Option.ite_none_right_eq_some, Option.some.injEq] at hnext
          obtain ⟨-, rfl⟩ := hnext
          exact h
      next => cases hnext
      next => cases hnext

/-- **Stopping the service.**  In every run in which no worker asks for
`mIOLoopGuard` from the moment `stopWorkerThread` takes it, and none waits for it
then, stopping does not deadlock. -/
theorem service_stop_no_deadlock (threadNum : ℕ)
    (h : ((system threadNum).restrict (leavesGuard threadNum)).Reachable s) :
    ¬ s.Deadlocked threadNum := by
  have hunawaited : s.Unawaited threadNum := by
    refine h.invariant ?_ ?_
    · rintro s rfl
      rintro ⟨⟩
    · intro s action s' _ hunawaited hnext
      obtain ⟨hleaves, hnext⟩ := System.next_of_restrict hnext
      exact hunawaited.next hleaves hnext
  rintro ⟨hguard, i, hi, -, hwaiting⟩
  exact hunawaited hguard i hi hwaiting

/-- A worker enters a session and answers it before the service is stopped. -/
theorem service_stop_no_deadlock_entered :
    ∃ s, ((system 1).restrict (leavesGuard 1)).run start
        [.addSession 0 true, .worker 0 .loop, .worker 0 .runProc, .worker 0 .unlock,
          .worker 0 (.call (.session (.send [1] false))), .worker 0 .unlock, .stopWorkerThread,
          .worker 0 .callbackReturn] = some s ∧
      s.stop = .joining 0 ∧ ¬ s.Deadlocked 1 := by
  have hno (s : Service) (hrun : ((system 1).restrict (leavesGuard 1)).run start
      [.addSession 0 true, .worker 0 .loop, .worker 0 .runProc, .worker 0 .unlock,
        .worker 0 (.call (.session (.send [1] false))), .worker 0 .unlock, .stopWorkerThread,
        .worker 0 .callbackReturn] = some s) : ¬ s.Deadlocked 1 := by
    have hinit : ((system 1).restrict (leavesGuard 1)).init start := rfl
    exact service_stop_no_deadlock 1 (System.reachable_of_run hinit hrun)
  exact ⟨_, rfl, rfl, hno _ rfl⟩

/-- A session is entered after `stopWorkerThread` has taken the guard: its worker
waits in the enter callback of `WrapTcpService`. -/
theorem not_service_stop_no_deadlock_entering :
    ¬ ∀ s, (system 1).Reachable s → ¬ s.Deadlocked 1 := by
  intro hall
  have hlate (s : Service) (hrun : (system 1).run start
      [.addSession 0 true, .worker 0 .loop, .stopWorkerThread, .worker 0 .runProc] = some s)
      (hdead : s.Deadlocked 1) : False :=
    hall s (System.reachable_of_run rfl hrun) hdead
  exact hlate _ rfl ⟨rfl, 0, by decide, rfl, rfl⟩

end Service

end Brynet
