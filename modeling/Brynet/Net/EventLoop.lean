import Brynet.Lib.Transition
import Mathlib.Algebra.Order.Ring.Int
import Mathlib.Logic.Function.Basic

/-!
# `EventLoop` and the threads that push into it

The loop thread repeats `loop()`; any number of other threads call
`pushAsyncProc` and `wakeup`.  Every atomic access, lock section, `eventfd` read
or write and `epoll_wait` is one step, and the steps of all threads interleave
arbitrarily.  Procs are opaque values of a type `α`.

`wakeup` writes to the `eventfd` only if `mIsInBlock` is set and
`mIsAlreadyPostWakeup` was not set before.  Both elisions are justified by where
the loop thread then is:

* `mIsInBlock` is clear only between the return of `epoll_wait` and the swap of
  the queue, so a thread that skips the write has pushed before that swap;
* `mIsAlreadyPostWakeup` is set only while some thread is about to write, the
  `eventfd` is signalled, or the loop has left `epoll_wait` and has not yet reset
  the flag, which again comes before the swap.

`Inv` states these two facts, and `no_lost_wakeup` reads off the result.
-/

namespace Brynet

open Transition

/-- A thread other than the loop thread. -/
abbrev Thread := ℕ

/-- Where a pushing thread is: what of `wakeup` is still ahead of it. -/
inductive ThreadPc
  | idle
  | check
  | exchange
  | write
deriving Repr, DecidableEq

/-- Where the loop thread is in `loop()`.  `wakeupEntry` says whether the entry
of the wakeup channel is among those `epoll_wait` returned and still unhandled. -/
inductive LoopPc
  | poll
  | waiting (zeroTimeout : Bool)
  | returned (wakeupEntry : Bool)
  | events (wakeupEntry : Bool)
  | resetPost
  | resetBlock
  | swapAsync
  | asyncProcs
  | afterProcs
  | timers
deriving Repr, DecidableEq

/-- The state.  `eventfd` is the counter of the event descriptor and `epollReady`
whether it is on the ready list of the (edge-triggered) epoll instance.  The
`mCopy` vectors hold the procs that are still to be executed. -/
structure EventLoop (α : Type) where
  mIsInBlock : Bool
  mIsAlreadyPostWakeup : Bool
  eventfd : ℕ
  epollReady : Bool
  mAsyncProcs : List α
  mCopyAsyncProcs : List α
  mAfterLoopProcs : List α
  mCopyAfterLoopProcs : List α
  pc : LoopPc
  threads : Thread → ThreadPc
  executed : List α

inductive EventLoopAction (α : Type)
  | push (t : Thread) (f : α)
  | wakeup (t : Thread)
  | check (t : Thread)
  | exchange (t : Thread)
  | write (t : Thread)
  | poll
  | wait (wakeupEntry : Bool)
  | clearBlock
  | drain
  | eventsDone
  | clearPost
  | setBlock
  | swapAsync
  | runAsync
  | asyncDone
  | runAfter
  | afterDone
  | timersDone
  | pushInLoop (f : α)
  | pushAfterLoop (f : α)
deriving Repr, DecidableEq

namespace EventLoop

variable {α : Type}

/-- The state after the constructor. -/
def initial : EventLoop α where
  mIsInBlock := true
  mIsAlreadyPostWakeup := false
  eventfd := 0
  epollReady := false
  mAsyncProcs := []
  mCopyAsyncProcs := []
  mAfterLoopProcs := []
  mCopyAfterLoopProcs := []
  pc := .poll
  threads := fun _ => .idle
  executed := []

def setThread (s : EventLoop α) (t : Thread) (pc : ThreadPc) : EventLoop α :=
  { s with threads := Function.update s.threads t pc }

/-- Where the loop thread may be in code of its users: callbacks of channels,
procs and timers, and between two calls of `loop()`. -/
def inUserCode (s : EventLoop α) : Bool :=
  match s.pc with
  | .poll | .events _ | .asyncProcs | .afterProcs | .timers => true
  | _ => false

/-- `WakeupChannel::wakeup`.  A write that would overflow the counter fails and
leaves it alone. -/
def writeEventfd (s : EventLoop α) : EventLoop α :=
  if s.eventfd + 1 < 2 ^ 64 - 1 then { s with eventfd := s.eventfd + 1, epollReady := true }
  else s

/-- A step of another thread, which is at `pc` before it. -/
def threadNext (s : EventLoop α) (t : Thread) (pc : ThreadPc) (after : EventLoop α) :
    Option (EventLoop α) :=
  if s.threads t = pc then some after else none

/-- A step of the loop thread, which is at `pc` before it. -/
def loopNext (s : EventLoop α) (pc : LoopPc) (after : EventLoop α) : Option (EventLoop α) :=
  if s.pc = pc then some after else none

def next (s : EventLoop α) : EventLoopAction α → Option (EventLoop α)
  | .push t f =>
      s.threadNext t .idle { s.setThread t .check with mAsyncProcs := s.mAsyncProcs ++ [f] }
  | .wakeup t => s.threadNext t .idle (s.setThread t .check)
  | .check t =>
      s.threadNext t .check (s.setThread t (if s.mIsInBlock then .exchange else .idle))
  | .exchange t =>
      s.threadNext t .exchange
        { s.setThread t (if s.mIsAlreadyPostWakeup then .idle else .write) with
          mIsAlreadyPostWakeup := true }
  | .write t => s.threadNext t .write (s.writeEventfd.setThread t .idle)
  | .poll =>
      -- With after-loop procs waiting, `loop()` sets its timeout to zero.
      s.loopNext .poll { s with pc := .waiting (!s.mAfterLoopProcs.isEmpty) }
  | .wait wakeupEntry =>
      -- `epoll_wait` may return at any time, for another channel or a timeout, and
      -- reports the event descriptor only if it is ready and readable.
      match s.pc with
      | .waiting _ =>
          if wakeupEntry && !(s.epollReady && 0 < s.eventfd) then none
          else some { s with
            pc := .returned wakeupEntry, epollReady := s.epollReady && !wakeupEntry }
      | _ => none
  | .clearBlock =>
      match s.pc with
      | .returned wakeupEntry => some { s with pc := .events wakeupEntry, mIsInBlock := false }
      | _ => none
  | .drain => s.loopNext (.events true) { s with pc := .events false, eventfd := 0 }
  | .eventsDone => s.loopNext (.events false) { s with pc := .resetPost }
  | .clearPost => s.loopNext .resetPost { s with pc := .resetBlock, mIsAlreadyPostWakeup := false }
  | .setBlock => s.loopNext .resetBlock { s with pc := .swapAsync, mIsInBlock := true }
  | .swapAsync =>
      s.loopNext .swapAsync { s with
        pc := .asyncProcs, mAsyncProcs := s.mCopyAsyncProcs, mCopyAsyncProcs := s.mAsyncProcs }
  | .runAsync =>
      match s.mCopyAsyncProcs with
      | f :: rest => s.loopNext .asyncProcs
          { s with mCopyAsyncProcs := rest, executed := s.executed ++ [f] }
      | [] => none
  | .asyncDone =>
      if s.mCopyAsyncProcs.isEmpty then
        s.loopNext .asyncProcs { s with
          pc := .afterProcs
          mAfterLoopProcs := s.mCopyAfterLoopProcs
          mCopyAfterLoopProcs := s.mAfterLoopProcs }
      else none
  | .runAfter =>
      match s.mCopyAfterLoopProcs with
      | f :: rest => s.loopNext .afterProcs
          { s with mCopyAfterLoopProcs := rest, executed := s.executed ++ [f] }
      | [] => none
  | .afterDone =>
      if s.mCopyAfterLoopProcs.isEmpty then s.loopNext .afterProcs { s with pc := .timers }
      else none
  | .timersDone => s.loopNext .timers { s with pc := .poll }
  | .pushInLoop f =>
      -- On the loop thread `pushAsyncProc` runs the proc at once.
      if s.inUserCode then some { s with executed := s.executed ++ [f] } else none
  | .pushAfterLoop f =>
      if s.inUserCode then some { s with mAfterLoopProcs := s.mAfterLoopProcs ++ [f] } else none

def system (α : Type) : System (EventLoop α) (EventLoopAction α) where
  init s := s = initial
  next := next

/-! ## The invariant -/

/-- The next `epoll_wait` reports the event descriptor. -/
def Signalled (s : EventLoop α) : Prop := s.epollReady = true ∧ 0 < s.eventfd

/-- `epoll_wait` has returned and `mIsAlreadyPostWakeup` was not reset yet. -/
def BeforeReset (s : EventLoop α) : Prop :=
  (∃ wakeupEntry, s.pc = .returned wakeupEntry ∨ s.pc = .events wakeupEntry) ∨ s.pc = .resetPost

/-- `epoll_wait` has returned and `mIsInBlock` was not set again yet. -/
def BeforeBlock (s : EventLoop α) : Prop := s.BeforeReset ∨ s.pc = .resetBlock

/-- `epoll_wait` has returned and the queue was not swapped yet. -/
def BeforeSwap (s : EventLoop α) : Prop := s.BeforeBlock ∨ s.pc = .swapAsync

structure Inv (s : EventLoop α) : Prop where
  /-- `mIsInBlock` is clear only where the swap is still ahead. -/
  block : s.mIsInBlock = false → s.BeforeBlock
  /-- A readable event descriptor is reported, or was and is being drained. -/
  readable : 0 < s.eventfd → s.epollReady = true ∨ s.pc = .returned true ∨ s.pc = .events true
  posted : s.mIsAlreadyPostWakeup = true →
    (∃ t, s.threads t = .write) ∨ s.Signalled ∨ s.BeforeReset
  queued : s.mAsyncProcs ≠ [] → (∃ t, s.threads t ≠ .idle) ∨ s.Signalled ∨ s.BeforeSwap
  /-- The copy is empty whenever it is swapped in. -/
  copied : s.pc ≠ .asyncProcs → s.mCopyAsyncProcs = []

variable {s s' after : EventLoop α} {t : Thread}

theorem inv_initial : (initial : EventLoop α).Inv := by
  constructor <;> simp [initial]

theorem eq_of_threadNext {pc : ThreadPc} (h : s.threadNext t pc after = some s') :
    s.threads t = pc ∧ s' = after := by
  simp only [threadNext, Option.ite_none_right_eq_some, Option.some.injEq] at h
  exact ⟨h.1, h.2.symm⟩

theorem eq_of_loopNext {pc : LoopPc} (h : s.loopNext pc after = some s') :
    s.pc = pc ∧ s' = after := by
  simp only [loopNext, Option.ite_none_right_eq_some, Option.some.injEq] at h
  exact ⟨h.1, h.2.symm⟩

/-- A step of a thread that is not about to write keeps the one that is. -/
theorem exists_write_update {pc : ThreadPc} (new : ThreadPc) (ht : s.threads t = pc)
    (hpc : pc ≠ .write) (h : ∃ u, s.threads u = .write) :
    ∃ u, Function.update s.threads t new u = .write := by
  obtain ⟨u, hu⟩ := h
  have hne : u ≠ t := by
    rintro rfl
    exact hpc (ht.symm.trans hu)
  exact ⟨u, by rw [Function.update_of_ne hne, hu]⟩

/-! ### Steps of the other threads -/

/-- A thread that starts `wakeup`, having pushed or not, has its check ahead. -/
theorem Inv.startWakeup (inv : s.Inv) (ht : s.threads t = .idle) (procs : List α) :
    { s.setThread t .check with mAsyncProcs := procs }.Inv where
  block := inv.block
  readable := inv.readable
  posted hpost := by
    rcases inv.posted hpost with hwrite | hrest
    · exact .inl (exists_write_update _ ht (by decide) hwrite)
    · exact .inr hrest
  queued _ := .inl ⟨t, by simp [setThread]⟩
  copied := inv.copied

/-- A thread that sees `mIsInBlock` clear has pushed before the coming swap. -/
theorem Inv.check (inv : s.Inv) (ht : s.threads t = .check) :
    (s.setThread t (if s.mIsInBlock then .exchange else .idle)).Inv where
  block := inv.block
  readable := inv.readable
  posted hpost := by
    rcases inv.posted hpost with hwrite | hrest
    · exact .inl (exists_write_update _ ht (by decide) hwrite)
    · exact .inr hrest
  queued hqueue := by
    cases hblock : s.mIsInBlock with
    | true => exact .inl ⟨t, by simp [setThread]⟩
    | false => exact .inr (.inr (.inl (inv.block hblock)))
  copied := inv.copied

/-- A thread that finds a wakeup already posted relies on that one. -/
theorem Inv.exchange (inv : s.Inv) (ht : s.threads t = .exchange) :
    { s.setThread t (if s.mIsAlreadyPostWakeup then .idle else .write) with
      mIsAlreadyPostWakeup := true }.Inv where
  block := inv.block
  readable := inv.readable
  posted _ := by
    cases hpost : s.mIsAlreadyPostWakeup with
    | true =>
        rcases inv.posted hpost with hwrite | hrest
        · exact .inl (exists_write_update _ ht (by decide) hwrite)
        · exact .inr hrest
    | false => exact .inl ⟨t, by simp [setThread]⟩
  queued _ := by
    cases hpost : s.mIsAlreadyPostWakeup with
    | true =>
        rcases inv.posted hpost with hwrite | hsignal | hreset
        · obtain ⟨u, hu⟩ := exists_write_update .idle ht (by decide) hwrite
          exact .inl ⟨u, by simp [setThread, hu]⟩
        · exact .inr (.inl hsignal)
        · exact .inr (.inr (.inl (.inl hreset)))
    | false => exact .inl ⟨t, by simp [setThread]⟩
  copied := inv.copied

/-- After the write the event descriptor is signalled, or the loop has just left
`epoll_wait` for it. -/
theorem Inv.signalled_of_write (inv : s.Inv) :
    s.writeEventfd.Signalled ∨ s.writeEventfd.BeforeReset := by
  unfold writeEventfd
  split
  · exact .inl ⟨rfl, Nat.succ_pos _⟩
  · have hpos : 0 < s.eventfd := by omega
    rcases inv.readable hpos with hready | hreturned | hevents
    · exact .inl ⟨hready, hpos⟩
    · exact .inr (.inl ⟨true, .inl hreturned⟩)
    · exact .inr (.inl ⟨true, .inr hevents⟩)

theorem Inv.write (inv : s.Inv) : (s.writeEventfd.setThread t .idle).Inv := by
  have hpc : s.writeEventfd.pc = s.pc := by unfold writeEventfd; split <;> rfl
  have hblock : s.writeEventfd.mIsInBlock = s.mIsInBlock := by unfold writeEventfd; split <;> rfl
  have hcopy : s.writeEventfd.mCopyAsyncProcs = s.mCopyAsyncProcs := by
    unfold writeEventfd; split <;> rfl
  refine ⟨?_, ?_, ?_, ?_, ?_⟩
  · intro hclear
    have hplace := inv.block (hblock ▸ hclear)
    simpa [BeforeBlock, BeforeReset, setThread, hpc] using hplace
  · intro hpos
    simp only [setThread, hpc]
    unfold writeEventfd at hpos ⊢
    split at hpos
    · exact .inl (by simp_all)
    · simp_all only [if_false]
      exact inv.readable hpos
  · exact fun _ => .inr inv.signalled_of_write
  · intro _
    rcases inv.signalled_of_write with hsignal | hreset
    · exact .inr (.inl hsignal)
    · exact .inr (.inr (.inl (.inl hreset)))
  · intro hne
    exact hcopy.trans (inv.copied (hpc ▸ hne))

/-! ### Steps of the loop thread -/

/-- A step of the loop thread that keeps what the threads share.  The swap must
not be passed, and nothing the invariant says of the old place may be lost. -/
theorem Inv.of_loop (inv : s.Inv) (hblock : s'.mIsInBlock = false → s'.BeforeBlock)
    (hreadable : 0 < s'.eventfd →
      s'.epollReady = true ∨ s'.pc = .returned true ∨ s'.pc = .events true)
    (hthreads : s'.threads = s.threads)
    (hpost : s'.mIsAlreadyPostWakeup = true → s.mIsAlreadyPostWakeup = true ∧
      (s.Signalled ∨ s.BeforeReset → s'.Signalled ∨ s'.BeforeReset))
    (hqueue : s'.mAsyncProcs ≠ [] → s.mAsyncProcs ≠ [] ∧
      (s.Signalled ∨ s.BeforeSwap → s'.Signalled ∨ s'.BeforeSwap))
    (hcopied : s'.pc ≠ .asyncProcs → s'.mCopyAsyncProcs = []) : s'.Inv where
  block := hblock
  readable := hreadable
  posted h := by
    rw [hthreads]
    exact (inv.posted (hpost h).1).imp_right (hpost h).2
  queued h := by
    rw [hthreads]
    exact (inv.queued (hqueue h).1).imp_right (hqueue h).2
  copied := hcopied

/-- `epoll_wait` returns. -/
theorem Inv.wait (inv : s.Inv) {zeroTimeout wakeupEntry : Bool}
    (hpc : s.pc = .waiting zeroTimeout) :
    { s with
      pc := .returned wakeupEntry, epollReady := s.epollReady && !wakeupEntry }.Inv := by
  refine inv.of_loop ?_ ?_ rfl ?_ ?_ ?_
  · exact fun _ => .inl (.inl ⟨_, .inl rfl⟩)
  · intro hpos
    rcases inv.readable hpos with hready | hreturned | hevents
    · cases wakeupEntry with
      | true => exact .inr (.inl rfl)
      | false => exact .inl (by simpa using hready)
    · rw [hpc] at hreturned; cases hreturned
    · rw [hpc] at hevents; cases hevents
  · exact fun h => ⟨h, fun _ => .inr (.inl ⟨_, .inl rfl⟩)⟩
  · exact fun h => ⟨h, fun _ => .inr (.inl (.inl (.inl ⟨_, .inl rfl⟩)))⟩
  · exact fun _ => inv.copied (by simp [hpc])

/-- The steps from the return of `epoll_wait` to the reset of
`mIsAlreadyPostWakeup`: both elisions stay justified by the place alone. -/
theorem Inv.beforeReset (inv : s.Inv) (hcopied : s.mCopyAsyncProcs = [])
    (hqueue : s'.mAsyncProcs = s.mAsyncProcs) (hthreads : s'.threads = s.threads)
    (hcopy : s'.mCopyAsyncProcs = s.mCopyAsyncProcs)
    (hpost : s'.mIsAlreadyPostWakeup = s.mIsAlreadyPostWakeup) (hreset : s'.BeforeReset)
    (hreadable : 0 < s'.eventfd →
      s'.epollReady = true ∨ s'.pc = .returned true ∨ s'.pc = .events true) : s'.Inv :=
  inv.of_loop (fun _ => .inl hreset) hreadable hthreads
    (fun h => ⟨hpost ▸ h, fun _ => .inr hreset⟩)
    (fun h => ⟨hqueue ▸ h, fun _ => .inr (.inl (.inl hreset))⟩)
    (fun _ => hcopy.trans hcopied)

theorem Inv.ready_of_pc (inv : s.Inv) (hreturned : s.pc ≠ .returned true)
    (hevents : s.pc ≠ .events true) (hpos : 0 < s.eventfd) : s.epollReady = true := by
  rcases inv.readable hpos with h | h | h
  · exact h
  · exact absurd h hreturned
  · exact absurd h hevents

theorem Inv.block_of_pc (inv : s.Inv) (h : ¬ s.BeforeBlock) : s.mIsInBlock = true := by
  by_contra hclear
  exact h (inv.block (by simpa using hclear))

/-- The steps after the swap and before the next `epoll_wait` returns: a posted
wakeup or a queued proc is answered for by a thread or by the descriptor. -/
theorem Inv.afterSwap (inv : s.Inv) (hplace : ¬ s.BeforeSwap)
    (hblock : s'.mIsInBlock = s.mIsInBlock) (hfd : s'.eventfd = s.eventfd)
    (hready : s'.epollReady = s.epollReady) (hpost : s'.mIsAlreadyPostWakeup = s.mIsAlreadyPostWakeup)
    (hqueue : s'.mAsyncProcs = s.mAsyncProcs) (hthreads : s'.threads = s.threads)
    (hcopied : s'.pc ≠ .asyncProcs → s'.mCopyAsyncProcs = []) : s'.Inv := by
  have hreset : ¬ s.BeforeReset := fun h => hplace (.inl (.inl h))
  have hsignal : s.Signalled → s'.Signalled := by
    rintro ⟨h, hpos⟩
    exact ⟨hready.trans h, by rwa [hfd]⟩
  refine inv.of_loop ?_ ?_ hthreads ?_ ?_ hcopied
  · intro hclear
    rw [hblock, inv.block_of_pc fun h => hplace (.inl h)] at hclear
    cases hclear
  · intro hpos
    rw [hfd] at hpos
    refine .inl (hready.trans (inv.ready_of_pc ?_ ?_ hpos))
    · exact fun h => hreset (.inl ⟨_, .inl h⟩)
    · exact fun h => hreset (.inl ⟨_, .inr h⟩)
  · exact fun h => ⟨hpost ▸ h, fun hor => .inl (hsignal (hor.resolve_right hreset))⟩
  · exact fun h => ⟨hqueue ▸ h, fun hor => .inl (hsignal (hor.resolve_right hplace))⟩

theorem Inv.events (inv : s.Inv) {action : EventLoopAction α}
    (haction : action = .clearBlock ∨ action = .drain ∨ action = .eventsDone)
    (hnext : s.next action = some s') : s'.Inv := by
  rcases haction with rfl | rfl | rfl
  · simp only [next] at hnext
    split at hnext
    · rename_i wakeupEntry hpc
      cases hnext
      refine inv.beforeReset (inv.copied (by simp [hpc])) rfl rfl rfl rfl (.inl ⟨_, .inr rfl⟩) ?_
      intro hpos
      rcases inv.readable hpos with h | h | h
      · exact .inl h
      · rw [hpc, LoopPc.returned.injEq] at h
        exact .inr (.inr (by rw [h]))
      · rw [hpc] at h; cases h
    · cases hnext
  · obtain ⟨hpc, rfl⟩ := eq_of_loopNext hnext
    exact inv.beforeReset (inv.copied (by simp [hpc])) rfl rfl rfl rfl (.inl ⟨_, .inr rfl⟩)
      fun hpos => absurd hpos (Nat.lt_irrefl 0)
  · obtain ⟨hpc, rfl⟩ := eq_of_loopNext hnext
    exact inv.beforeReset (inv.copied (by simp [hpc])) rfl rfl rfl rfl (.inr rfl)
      fun hpos => .inl (inv.ready_of_pc (by simp [hpc]) (by simp [hpc]) hpos)

/-- The reset of the two flags, in the order of the source, and the swap. -/
theorem Inv.resets (inv : s.Inv) {action : EventLoopAction α}
    (haction : action = .clearPost ∨ action = .setBlock ∨ action = .swapAsync)
    (hnext : s.next action = some s') : s'.Inv := by
  rcases haction with rfl | rfl | rfl <;> obtain ⟨hpc, rfl⟩ := eq_of_loopNext hnext
  · exact inv.of_loop (fun _ => .inr rfl)
      (fun hpos => .inl (inv.ready_of_pc (by simp [hpc]) (by simp [hpc]) hpos)) rfl
      (fun h => by cases h) (fun h => ⟨h, fun _ => .inr (.inl (.inr rfl))⟩)
      fun _ => inv.copied (by simp [hpc])
  · have hreset : ¬ s.BeforeReset := by simp [BeforeReset, hpc]
    exact inv.of_loop (fun h => by cases h)
      (fun hpos => .inl (inv.ready_of_pc (by simp [hpc]) (by simp [hpc]) hpos)) rfl
      (fun h => ⟨h, fun hor => .inl (hor.resolve_right hreset)⟩)
      (fun h => ⟨h, fun _ => .inr (.inr rfl)⟩)
      fun _ => inv.copied (by simp [hpc])
  · have hreset : ¬ s.BeforeReset := by simp [BeforeReset, hpc]
    have hcopied : s.mCopyAsyncProcs = [] := inv.copied (by simp [hpc])
    have hblock : s.mIsInBlock = true := inv.block_of_pc (by simp [BeforeBlock, hreset, hpc])
    exact inv.of_loop (fun h => absurd (hblock.symm.trans h) (by decide))
      (fun hpos => .inl (inv.ready_of_pc (by simp [hpc]) (by simp [hpc]) hpos)) rfl
      (fun h => ⟨h, fun hor => .inl (hor.resolve_right hreset)⟩)
      (fun h => absurd hcopied h) fun h => absurd rfl h

theorem Inv.next (inv : s.Inv) {action : EventLoopAction α}
    (hnext : s.next action = some s') : s'.Inv := by
  cases action with
  -- The three atomic steps of `wakeup`, by any other thread.
  | push t f =>
      obtain ⟨ht, rfl⟩ := eq_of_threadNext hnext
      exact inv.startWakeup ht _
  | wakeup t =>
      obtain ⟨ht, rfl⟩ := eq_of_threadNext hnext
      exact inv.startWakeup ht s.mAsyncProcs
  | check t =>
      obtain ⟨ht, rfl⟩ := eq_of_threadNext hnext
      exact inv.check ht
  | exchange t =>
      obtain ⟨ht, rfl⟩ := eq_of_threadNext hnext
      exact inv.exchange ht
  -- Writing to the descriptor is what makes it readable.
  | write t =>
      obtain ⟨-, rfl⟩ := eq_of_threadNext hnext
      exact inv.write
  -- Before the wait the flags are as they were at the end of the last iteration.
  | poll =>
      obtain ⟨hpc, rfl⟩ := eq_of_loopNext hnext
      exact inv.afterSwap (by simp [BeforeSwap, BeforeBlock, BeforeReset, hpc]) rfl rfl rfl rfl rfl rfl
        fun _ => inv.copied (by simp [hpc])
  | wait wakeupEntry =>
      simp only [EventLoop.next] at hnext
      split at hnext
      · split at hnext
        · cases hnext
        · cases hnext
          exact inv.wait ‹_›
      · cases hnext
  -- Between the wait and the swap the flags are reset, one by one.
  | clearBlock => exact inv.events (.inl rfl) hnext
  | drain => exact inv.events (.inr (.inl rfl)) hnext
  | eventsDone => exact inv.events (.inr (.inr rfl)) hnext
  | clearPost => exact inv.resets (.inl rfl) hnext
  | setBlock => exact inv.resets (.inr (.inl rfl)) hnext
  | swapAsync => exact inv.resets (.inr (.inr rfl)) hnext
  -- From here to the next wait neither the flags nor the descriptor change.
  | runAsync =>
      simp only [EventLoop.next] at hnext
      split at hnext
      · obtain ⟨hpc, rfl⟩ := eq_of_loopNext hnext
        exact inv.afterSwap (by simp [BeforeSwap, BeforeBlock, BeforeReset, hpc]) rfl rfl rfl rfl rfl rfl
          fun h => absurd hpc h
      · cases hnext
  | asyncDone =>
      simp only [EventLoop.next] at hnext
      split at hnext
      · obtain ⟨hpc, rfl⟩ := eq_of_loopNext hnext
        exact inv.afterSwap (by simp [BeforeSwap, BeforeBlock, BeforeReset, hpc]) rfl rfl rfl rfl rfl rfl
          fun _ => List.isEmpty_iff.mp ‹_›
      · cases hnext
  | runAfter =>
      simp only [EventLoop.next] at hnext
      split at hnext
      · obtain ⟨hpc, rfl⟩ := eq_of_loopNext hnext
        exact inv.afterSwap (by simp [BeforeSwap, BeforeBlock, BeforeReset, hpc]) rfl rfl rfl rfl rfl rfl
          fun _ => inv.copied (by simp [hpc])
      · cases hnext
  | afterDone =>
      simp only [EventLoop.next] at hnext
      split at hnext
      · obtain ⟨hpc, rfl⟩ := eq_of_loopNext hnext
        exact inv.afterSwap (by simp [BeforeSwap, BeforeBlock, BeforeReset, hpc]) rfl rfl rfl rfl rfl rfl
          fun _ => inv.copied (by simp [hpc])
      · cases hnext
  | timersDone =>
      obtain ⟨hpc, rfl⟩ := eq_of_loopNext hnext
      exact inv.afterSwap (by simp [BeforeSwap, BeforeBlock, BeforeReset, hpc]) rfl rfl rfl rfl rfl rfl
        fun _ => inv.copied (by simp [hpc])
  -- The loop thread's own pushes set no flag and need no wakeup.
  | pushInLoop f =>
      simp only [EventLoop.next, Option.ite_none_right_eq_some, Option.some.injEq] at hnext
      obtain ⟨-, rfl⟩ := hnext
      exact ⟨inv.block, inv.readable, inv.posted, inv.queued, inv.copied⟩
  | pushAfterLoop f =>
      simp only [EventLoop.next, Option.ite_none_right_eq_some, Option.some.injEq] at hnext
      obtain ⟨-, rfl⟩ := hnext
      exact ⟨inv.block, inv.readable, inv.posted, inv.queued, inv.copied⟩

theorem inv_of_reachable (h : (system α).Reachable s) : s.Inv :=
  h.invariant (fun _ hinit => hinit ▸ inv_initial) fun _ _ _ _ inv hnext => inv.next hnext

/-- **No lost wakeup.**  The loop thread is never blocked in `epoll_wait` with a
proc queued, the event descriptor not signalled and no thread with a check or a
write ahead of it. -/
theorem no_lost_wakeup :
    ¬ ∃ s : EventLoop α, (system α).Reachable s ∧
      (∃ zeroTimeout, s.pc = .waiting zeroTimeout) ∧ s.mAsyncProcs ≠ [] ∧
      ¬ (s.epollReady = true ∧ 0 < s.eventfd) ∧ ∀ t, s.threads t = .idle := by
  rintro ⟨s, hreach, ⟨zeroTimeout, hpc⟩, hqueue, hsignal, hidle⟩
  rcases (inv_of_reachable hreach).queued hqueue with ⟨t, ht⟩ | hsignalled | hswap
  · exact ht (hidle t)
  · exact hsignal hsignalled
  · simp [BeforeSwap, BeforeBlock, BeforeReset, hpc] at hswap

end EventLoop

end Brynet
