import Brynet.Lib.Transition
import Mathlib.Data.List.Induction

/-!
# Calls of an `AsyncConnector`

The object itself, as its callers see it: four shared pointers that the constructor,
`startWorkerThread` and `stopWorkerThread` set and reset, and `asyncConnect`, which reads
through one of them.  All calls take `mThreadGuard`, so they happen one after the other;
the worker thread takes the closures out of its loop in between.  What it does with them
is the subject of `Brynet.Net.Connector`.

Reading through a null pointer is a result of its own, `undefined`, after which there is
no next call.  The constructor of `std::thread` is taken to succeed.

After any sequence of calls the pointers are in one of three standings (`Standing`):
fresh, working, stopped.  `Standing.next` says what each call does in each of them, and
`standing_of_run` follows a whole sequence.
-/

namespace Brynet

open Transition

/-- What `asyncConnect` is given.  A callback is null or known by a number. -/
structure AsyncConnectAddr where
  ip : String
  port : Int32
  timeout : Int64
  successCB : Option ℕ
  failedCB : Option ℕ
deriving DecidableEq

/-- Neither callback is null. -/
def AsyncConnectAddr.HasCallbacks (address : AsyncConnectAddr) : Prop :=
  address.successCB.isSome ∧ address.failedCB.isSome

/-- The loop of a worker with the closures in its queue.  A closure holds the work info
and the address. -/
structure WorkerLoop where
  worker : ℕ
  mAsyncProcs : List (Option ℕ × AsyncConnectAddr)
deriving DecidableEq

/-- The members; `none` is a null pointer.  The workers are numbered as they are started,
and `started`, which is not in the source, counts them. -/
structure AsyncConnector where
  mIsRun : Option Bool
  mWorkInfo : Option ℕ
  mEventLoop : Option WorkerLoop
  mThread : Option ℕ
  started : ℕ
deriving DecidableEq

/-- How a call ends. -/
inductive CallOutcome
  | returned (s : AsyncConnector)
  | thrown (what : String) (s : AsyncConnector)
  | undefined
deriving DecidableEq

/-- The calls, and the worker taking what is in its queue. -/
inductive ConnectorCall
  | startWorkerThread
  | stopWorkerThread
  | asyncConnect (address : AsyncConnectAddr)
  | work
deriving DecidableEq

namespace AsyncConnector

/-- The constructor. -/
def new : AsyncConnector where
  mIsRun := some false
  mWorkInfo := none
  mEventLoop := none
  mThread := none
  started := 0

def startWorkerThread (s : AsyncConnector) : AsyncConnector :=
  if s.mThread ≠ none then s
  else
    { mIsRun := some true
      mWorkInfo := some s.started
      mEventLoop := some ⟨s.started, []⟩
      mThread := some s.started
      started := s.started + 1 }

/-- The closure that is pushed writes through `mIsRun`, on the worker thread; the join
returns after it. -/
def stopWorkerThread (s : AsyncConnector) : CallOutcome :=
  if s.mThread = none then .returned s
  else
    match s.mEventLoop, s.mIsRun with
    | some _, some _ =>
        .returned { s with mEventLoop := none, mWorkInfo := none, mIsRun := none, mThread := none }
    | _, _ => .undefined

def asyncConnect (s : AsyncConnector) (address : AsyncConnectAddr) : CallOutcome :=
  if address.successCB = none ∨ address.failedCB = none then
    .thrown "all callback is nullptr" s
  else
    match s.mIsRun with
    | none => .undefined
    | some false => .thrown "work thread already stop" s
    | some true =>
        match s.mEventLoop with
        | none => .undefined
        | some loop =>
            .returned { s with
              mEventLoop := some { loop with
                mAsyncProcs := loop.mAsyncProcs ++ [(s.mWorkInfo, address)] } }

/-- The worker swaps its queue for an empty one. -/
def work (s : AsyncConnector) : AsyncConnector :=
  { s with mEventLoop := s.mEventLoop.map fun loop => { loop with mAsyncProcs := [] } }

def perform (s : AsyncConnector) : ConnectorCall → CallOutcome
  | .startWorkerThread => .returned s.startWorkerThread
  | .stopWorkerThread => s.stopWorkerThread
  | .asyncConnect address => s.asyncConnect address
  | .work => .returned s.work

def system : System AsyncConnector ConnectorCall where
  init s := s = new
  next s call :=
    match s.perform call with
    | .returned s' => some s'
    | .thrown _ s' => some s'
    | .undefined => none

/-! ## The condition -/

/-- Whether a worker is running after these calls. -/
def running (calls : List ConnectorCall) : Bool :=
  calls.foldl (fun before call =>
    match call with
    | .startWorkerThread => true
    | .stopWorkerThread => false
    | _ => before) false

/-- A worker is running, or none was ever started. -/
def Answers (calls : List ConnectorCall) : Prop :=
  running calls = true ∨ .startWorkerThread ∉ calls

/-- `asyncConnect` throws and changes nothing if no worker is running, and else leaves
the request, with the work info of the current worker, in the queue of that worker. -/
def FailsCleanly (isRunning : Bool) (s : AsyncConnector) (address : AsyncConnectAddr) : Prop :=
  match s.asyncConnect address with
  | .thrown _ s' => isRunning = false ∧ s' = s
  | .returned s' => isRunning = true ∧ ∃ worker procs,
      s.mThread = some worker ∧ s.mEventLoop = some ⟨worker, procs⟩ ∧
      s' = { s with mEventLoop := some ⟨worker, procs ++ [(some worker, address)]⟩ }
  | .undefined => False

/-! ## The pointers between two calls -/

/-- The pointers, by whether a worker was ever started and whether one is running. -/
inductive Standing : Bool → Bool → AsyncConnector → Prop
  | fresh : Standing false false new
  | working (worker : ℕ) (procs : List (Option ℕ × AsyncConnectAddr)) (started : ℕ) :
      Standing true true ⟨some true, some worker, some ⟨worker, procs⟩, some worker, started⟩
  | stopped (started : ℕ) : Standing true false ⟨none, none, none, none, started⟩

theorem running_concat (calls : List ConnectorCall) (call : ConnectorCall) :
    running (calls ++ [call]) =
      match call with
      | .startWorkerThread => true
      | .stopWorkerThread => false
      | _ => running calls := by
  rw [running, List.foldl_append]
  rfl

variable {s s' : AsyncConnector} {wasStarted isRunning : Bool} {calls : List ConnectorCall}
  {address : AsyncConnectAddr}

theorem asyncConnect_eq (h : address.HasCallbacks) :
    s.asyncConnect address =
      match s.mIsRun with
      | none => .undefined
      | some false => .thrown "work thread already stop" s
      | some true =>
          match s.mEventLoop with
          | none => .undefined
          | some loop =>
              .returned { s with
                mEventLoop := some { loop with
                  mAsyncProcs := loop.mAsyncProcs ++ [(s.mWorkInfo, address)] } } := by
  obtain ⟨hsuccess, hfailed⟩ := h
  rw [asyncConnect, if_neg]
  rintro (hnone | hnone)
  · rw [hnone] at hsuccess
    cases hsuccess
  · rw [hnone] at hfailed
    cases hfailed

/-- `asyncConnect` behaves as it should in two of the three standings. -/
theorem Standing.failsCleanly_iff (h : Standing wasStarted isRunning s)
    (hcallbacks : address.HasCallbacks) :
    s.FailsCleanly isRunning address ↔ isRunning = true ∨ wasStarted = false := by
  rw [FailsCleanly, asyncConnect_eq hcallbacks]
  cases h with
  | fresh => simp [new]
  | working worker procs started => simp
  | stopped started => simp

/-- **One call.**  It is undefined only for `asyncConnect` after a stop, and else leads
to the standing of the calls with it. -/
theorem Standing.next (h : Standing wasStarted isRunning s) (call : ConnectorCall) :
    (system.next s call = none ∧ wasStarted = true ∧ isRunning = false ∧
      ∃ address, call = .asyncConnect address ∧ address.HasCallbacks) ∨
    ((∀ address, call = .asyncConnect address → address.HasCallbacks →
        isRunning = true ∨ wasStarted = false) ∧
      ∃ s', system.next s call = some s' ∧
        Standing (wasStarted || decide (call = .startWorkerThread))
          (match call with
            | .startWorkerThread => true
            | .stopWorkerThread => false
            | _ => isRunning) s') := by
  cases call with
  | startWorkerThread =>
      refine .inr ⟨by simp, s.startWorkerThread, rfl, ?_⟩
      cases h with
      | fresh => exact .working 0 [] 1
      | working worker procs started => exact .working worker procs started
      | stopped started => exact .working started [] (started + 1)
  | stopWorkerThread =>
      refine .inr ⟨by simp, ?_⟩
      cases h with
      | fresh => exact ⟨_, rfl, .fresh⟩
      | working worker procs started => exact ⟨_, rfl, .stopped started⟩
      | stopped started => exact ⟨_, rfl, .stopped started⟩
  | work =>
      refine .inr ⟨by simp, s.work, rfl, ?_⟩
      cases h with
      | fresh => exact .fresh
      | working worker procs started => exact .working worker [] started
      | stopped started => exact .stopped started
  -- Only here a pointer is read through: it is null once the worker was stopped.
  | asyncConnect address =>
      by_cases hcallbacks : address.HasCallbacks
      · have heq := asyncConnect_eq (s := s) hcallbacks
        simp only [system, perform]
        rw [heq]
        cases h with
        | fresh => exact .inr ⟨by simp, _, rfl, .fresh⟩
        | working worker procs started => exact .inr ⟨by simp, _, rfl, .working worker _ started⟩
        | stopped started => exact .inl ⟨rfl, rfl, rfl, address, rfl, hcallbacks⟩
      -- Without a callback it throws before it looks at the pointers.
      · have heq : s.asyncConnect address = .thrown "all callback is nullptr" s := by
          rw [asyncConnect, if_pos]
          simp only [AsyncConnectAddr.HasCallbacks, Option.isSome_iff_ne_none] at hcallbacks
          tauto
        refine .inr ⟨?_, s, ?_, ?_⟩
        · rintro _ ⟨⟩ hcallbacks'
          exact absurd hcallbacks' hcallbacks
        · simp only [system, perform, heq]
        · simpa using h

/-- **Whole sequences.**  Where the pointers stand after the calls. -/
theorem standing_of_run (h : system.run new calls = some s) :
    Standing (decide (.startWorkerThread ∈ calls)) (running calls) s := by
  refine System.run_induction
    (I := fun calls s => Standing (decide (.startWorkerThread ∈ calls)) (running calls) s) ?_ ?_ h
  · exact .fresh
  · intro calls mid call s hmid hnext
    obtain ⟨hnone, -⟩ | ⟨-, found, hfound, hstanding⟩ := hmid.next call
    · rw [hnone] at hnext
      cases hnext
    · obtain rfl : found = s := Option.some.inj (hfound.symm.trans hnext)
      rw [running_concat]
      convert hstanding using 1
      simp [eq_comm]

/-- The condition, by the standing. -/
theorem answers_iff : Answers calls ↔
    running calls = true ∨ decide (.startWorkerThread ∈ calls) = false := by
  simp [Answers]

/-- The calls are all defined exactly if no `asyncConnect` comes after a stop that no
start has followed. -/
theorem exists_run_iff (calls : List ConnectorCall) :
    (∃ s, system.run new calls = some s) ↔
      ∀ before address after, calls = before ++ .asyncConnect address :: after →
        address.HasCallbacks → Answers before := by
  constructor
  · rintro ⟨s, hrun⟩ before address after rfl hcallbacks
    rw [System.run_append, Option.bind_eq_some_iff] at hrun
    obtain ⟨mid, hmid, hrest⟩ := hrun
    rw [answers_iff]
    obtain ⟨hnone, -⟩ | ⟨hanswers, -⟩ := (standing_of_run hmid).next (.asyncConnect address)
    · rw [System.run, hnone] at hrest
      cases hrest
    · exact hanswers address rfl hcallbacks
  · intro hcalls
    induction calls using List.reverseRecOn with
    | nil => exact ⟨new, rfl⟩
    | append_singleton calls call ih =>
        obtain ⟨mid, hmid⟩ := ih fun before address after hsplit =>
          hcalls before address (after ++ [call]) (by rw [hsplit]; simp)
        rw [System.run_concat, hmid]
        obtain ⟨-, hstarted, hstopped, address, rfl, hcallbacks⟩ | ⟨-, s, hnext, -⟩ :=
          (standing_of_run hmid).next call
        · have hanswers := hcalls calls address [] rfl hcallbacks
          rw [answers_iff, hstarted, hstopped] at hanswers
          simp at hanswers
        · exact ⟨s, hnext⟩

/-- **When `asyncConnect` fails cleanly.**  No call of a sequence reads through a null
pointer exactly if no `asyncConnect` in it comes after a stop that no start has followed;
and after such a sequence `asyncConnect` does what it should exactly if it does not come
after such a stop itself. -/
theorem asyncConnect_answers (calls : List ConnectorCall) :
    ((∃ s, system.run new calls = some s) ↔
      ∀ before address after, calls = before ++ .asyncConnect address :: after →
        address.HasCallbacks → Answers before) ∧
    ∀ s address, system.run new calls = some s → address.HasCallbacks →
      (s.FailsCleanly (running calls) address ↔ Answers calls) := by
  refine ⟨exists_run_iff calls, fun s address hrun hcallbacks => ?_⟩
  rw [answers_iff]
  exact (standing_of_run hrun).failsCleanly_iff hcallbacks

/-- A request before the first start is refused. -/
theorem asyncConnect_answers_fresh :
    FailsCleanly false new ⟨"127.0.0.1", 9999, 0, some 0, some 1⟩ :=
  ((asyncConnect_answers []).2 new ⟨"127.0.0.1", 9999, 0, some 0, some 1⟩ rfl ⟨rfl, rfl⟩).mpr
    (.inr (by simp))

/-- A request after the worker was stopped reads through a null `mIsRun`. -/
theorem asyncConnect_after_stop :
    ¬∀ calls s address, system.run new calls = some s → address.HasCallbacks →
      s.FailsCleanly (running calls) address := by
  intro h
  exact h [.startWorkerThread, .stopWorkerThread] ⟨none, none, none, none, 1⟩
    ⟨"127.0.0.1", 9999, 0, some 0, some 1⟩ rfl ⟨rfl, rfl⟩

end AsyncConnector

end Brynet
