import Brynet.Lib.MachineInt
import Brynet.Lib.Transition

/-!
# `TimerMgr`

Timers in a priority queue, and `schedule`, which takes those that are due out of it and
calls them.  Times are counts of nanoseconds in `int64_t`.  The timers are numbered as they
are made.  `mTimers` lists the queue without its inner order: what `top` returns is left
open but for being maximal under `CompareTimer`.

A step is the code up to the next call of a callback or its return.  While a callback
runs it may add timers and cancel some; the clock may have moved on whenever it is read.

`present` and `popped` are about the last call of `schedule`: the timers that were there
when it began, and those it has popped so far.  They, `clock`, the last reading of the
clock, `created`, and the record `log` are not in the source.
-/

namespace Brynet

open MachineInt Transition

structure Timer where
  id : ℕ
  mActive : Bool
  mStartTime : ℤ
  mLastTime : ℤ
deriving Repr, DecidableEq

namespace Timer

/-- With `now` the reading of the clock. -/
def getLeftTime (t : Timer) (now : ℤ) : ℤ := int64 (t.mLastTime - int64 (now - t.mStartTime))

def cancel (t : Timer) : Timer := { t with mActive := false }

/-- `cancel` through a pointer to the timer of this number. -/
def cancelBy (id : ℕ) (t : Timer) : Timer := if t.id = id then t.cancel else t

/-- When the timer is due. -/
def deadline (t : Timer) : ℤ := t.mStartTime + t.mLastTime

end Timer

/-- `CompareTimer`: whether `left` comes after `right`. -/
def compareTimer (left right : Timer) : Bool :=
  let startDiff := int64 (left.mStartTime - right.mStartTime)
  let lastDiff := int64 (left.mLastTime - right.mLastTime)
  let diff := int64 (startDiff + lastDiff)
  diff > 0

/-- What has happened to the timers.  `cleared` has those that were in the manager. -/
inductive TimerEvent
  | added (id : ℕ) (start timeout : ℤ)
  | cancelled (id : ℕ)
  | cleared (ids : List ℕ)
  | called (id : ℕ) (now : ℤ)
deriving Repr, DecidableEq

/-- Where `schedule` is: not running, at the top of its loop, or in a callback. -/
inductive SchedulePhase
  | idle
  | loop
  | callback
deriving Repr, DecidableEq

structure TimerMgr where
  mTimers : List Timer
  phase : SchedulePhase
  clock : ℤ
  created : ℕ
  present : List ℕ
  popped : List Timer
  log : List TimerEvent
deriving Repr, DecidableEq

/-- A turn of `schedule` has the reading of the clock and the number of the timer that
`top` returns. -/
inductive TimerAction
  | addTimer (now timeout : ℤ)
  | cancel (id : ℕ)
  | clear
  | schedule
  | turn (now : ℤ) (top : ℕ)
  | finish
  | callbackReturn
deriving Repr, DecidableEq

namespace TimerMgr

def start (clock : ℤ) : TimerMgr where
  mTimers := []
  phase := .idle
  clock
  created := 0
  present := []
  popped := []
  log := []

/-- The numbers of the timers in the manager. -/
def ids (s : TimerMgr) : List ℕ := s.mTimers.map Timer.id

def record (s : TimerMgr) (e : TimerEvent) : TimerMgr := { s with log := s.log ++ [e] }

def addTimer (s : TimerMgr) (now timeout : ℤ) : TimerMgr :=
  { s with
    mTimers := { id := s.created, mActive := true, mStartTime := now, mLastTime := timeout } ::
      s.mTimers
    clock := now
    created := s.created + 1 }.record (.added s.created now timeout)

/-- A timer that is no longer in the manager is gone, or will not be asked again. -/
def cancel (s : TimerMgr) (id : ℕ) : TimerMgr :=
  { s with mTimers := s.mTimers.map (Timer.cancelBy id) }.record (.cancelled id)

def clear (s : TimerMgr) : TimerMgr := { s with mTimers := [] }.record (.cleared s.ids)

/-- The beginning of `schedule`. -/
def schedule (s : TimerMgr) : TimerMgr :=
  { s with phase := .loop, present := s.ids, popped := [] }

def pop (s : TimerMgr) (tmp : Timer) : TimerMgr :=
  { s with
    mTimers := s.mTimers.filter fun t => t.id ≠ tmp.id
    popped := s.popped ++ [tmp] }

/-- `Timer::operator()`. -/
def call (s : TimerMgr) (tmp : Timer) : TimerMgr :=
  if tmp.mActive then { s with phase := .callback }.record (.called tmp.id s.clock) else s

/-- A turn of the loop, with `tmp` the top of the queue. -/
def turn (s : TimerMgr) (now : ℤ) (tmp : Timer) : TimerMgr :=
  let s := { s with clock := now }
  if tmp.getLeftTime now > 0 then { s with phase := .idle } else (s.pop tmp).call tmp

/-- Whether the queue may return this timer. -/
def isTop (s : TimerMgr) (tmp : Timer) : Bool :=
  tmp ∈ s.mTimers && s.mTimers.all fun other => !compareTimer tmp other

/-- Whether the clock may give this reading. -/
def mayRead (s : TimerMgr) (now : ℤ) : Bool := s.clock ≤ now && fitsInt64 now

def next (s : TimerMgr) : TimerAction → Option TimerMgr
  | .addTimer now timeout =>
      if s.phase ≠ .loop && s.mayRead now && fitsInt64 timeout && fitsInt64 (now + timeout) then
        some (s.addTimer now timeout)
      else none
  | .cancel id => if s.phase ≠ .loop && id < s.created then some (s.cancel id) else none
  | .clear => if s.phase = .idle then some s.clear else none
  | .schedule => if s.phase = .idle then some s.schedule else none
  | .turn now top =>
      if s.phase = .loop && s.mayRead now then
        (s.mTimers.find? fun t => t.id = top && s.isTop t).map fun tmp => s.turn now tmp
      else none
  | .finish =>
      if s.phase = .loop && s.mTimers.isEmpty then some { s with phase := .idle } else none
  | .callbackReturn => if s.phase = .callback then some { s with phase := .loop } else none

def system : System TimerMgr TimerAction where
  init s := ∃ clock, fitsInt64 clock = true ∧ s = start clock
  next := next

/-- Whether the differences between two timers can be computed. -/
def comparable (t u : Timer) : Bool :=
  fitsInt64 (t.mStartTime - u.mStartTime) && fitsInt64 (t.mLastTime - u.mLastTime) &&
    fitsInt64 (t.deadline - u.deadline)

/-- Whether no difference of times that the step computes leaves `int64_t`: those between a
new timer and the ones in the queue, and the time that is left. -/
def inRange (s : TimerMgr) : TimerAction → Bool
  | .addTimer now timeout =>
      let timer : Timer :=
        { id := s.created, mActive := true, mStartTime := now, mLastTime := timeout }
      s.mTimers.all fun t => comparable timer t && comparable t timer
  | .turn now _ =>
      s.mTimers.all fun t =>
        fitsInt64 (now - t.mStartTime) && fitsInt64 (t.mLastTime - (now - t.mStartTime))
  | _ => true

end TimerMgr

end Brynet
