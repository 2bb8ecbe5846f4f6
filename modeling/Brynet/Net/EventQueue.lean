import Brynet.Net.EventLoop
import Mathlib.Algebra.Order.Group.Multiset
import Mathlib.Tactic.Abel

/-!
# The queues of `EventLoop`

`EventLoop` with a history: every proc is tagged with its push, and every execution
is noted with the thread and the iteration it happens in.  The steps are those of
`EventLoop`; the loop thread's own `pushAsyncProc` is `pushInLoop`, which executes the
proc at once, and that of any other thread is `push`.

`Inv` accounts for every proc: what was executed and what is in the four vectors is
what was pushed, in push order for each kind of push.  An after-loop proc that is
pushed while others run stays behind the swap, and is therefore executed in the next
iteration, before which `loop()` does not block.

The fields of `Inv` say where the procs are, in which order, and when they may run:

* `conserved`: what was executed and what waits is what was pushed, as multisets, so
  no proc is lost and none is executed twice (`Inv.nodup`);
* `async`, `swapped`, `after`: for each kind the executed ones, the copy and the queue
  are, in this order, the pushes of that kind;
* `queued`, `running`, `executed`: an after-loop proc is of this iteration or of the
  one before, depending on whether the swap is still ahead (`BeforeAfter`).

The steps are of four kinds.  Those of other threads and those of the loop thread that
touch no queue are `Inv.elsewhere` and `Inv.advance`; a push is one of `Inv.pushAsync`,
`Inv.pushNested` and `Inv.pushAfter`; a swap is `Inv.swapAsync` or `Inv.asyncDone`; and
an execution is `Inv.runAsync` or `Inv.runAfter`.  `Inv.next` goes through the steps.
-/

namespace Brynet

open Transition

/-- How a proc was pushed: `pushAsyncProc` of another thread, `pushAsyncProc` of the
loop thread, or `pushAfterLoopProc`. -/
inductive PushKind
  | async
  | nested
  | after
deriving Repr, DecidableEq

/-- A pushed proc: the number of its push, the iteration of `loop()` in which (or
before which) it was pushed, and whether after-loop procs were running. -/
structure Pushed (α : Type) where
  number : ℕ
  kind : PushKind
  proc : α
  iteration : ℕ
  whileAfter : Bool
deriving Repr, DecidableEq

/-- An execution of a proc. -/
structure Execution (α : Type) where
  thread : Thread
  iteration : ℕ
  pushed : Pushed α
deriving Repr, DecidableEq

/-- The thread that makes a step; `selfId` is the loop thread. -/
def EventLoopAction.thread {α : Type} (selfId : Thread) : EventLoopAction α → Thread
  | .push t _ | .wakeup t | .check t | .exchange t | .write t => t
  | _ => selfId

/-- The procs that a step pushes. -/
def EventLoopAction.procs {α : Type} : EventLoopAction α → List α
  | .push _ f | .pushInLoop f | .pushAfterLoop f => [f]
  | _ => []

/-- The loop with its history.  `swapped` are the procs of other threads that were
queued up to the last swap. -/
structure LoopHistory (α : Type) where
  loop : EventLoop (Pushed α)
  iteration : ℕ
  pushed : List (Pushed α)
  executions : List (Execution α)
  swapped : List (Pushed α)

namespace LoopHistory

variable {α : Type}

def initial : LoopHistory α := ⟨EventLoop.initial, 0, [], [], []⟩

/-- The pushes of one kind, in their order. -/
def pushedOf (h : LoopHistory α) (kind : PushKind) : List (Pushed α) :=
  h.pushed.filter fun p => p.kind = kind

/-- The executed procs of one kind, in the order of their execution. -/
def executedOf (h : LoopHistory α) (kind : PushKind) : List (Pushed α) :=
  (h.executions.map Execution.pushed).filter fun p => p.kind = kind

def tag (h : LoopHistory α) (kind : PushKind) (proc : α) : Pushed α :=
  ⟨h.pushed.length, kind, proc, h.iteration, h.loop.pc = .afterProcs⟩

/-- The step of the loop, with the tag of the proc that it pushes. -/
def action (h : LoopHistory α) : EventLoopAction α → EventLoopAction (Pushed α)
  | .push t f => .push t (h.tag .async f)
  | .wakeup t => .wakeup t
  | .check t => .check t
  | .exchange t => .exchange t
  | .write t => .write t
  | .poll => .poll
  | .wait wakeupEntry => .wait wakeupEntry
  | .clearBlock => .clearBlock
  | .drain => .drain
  | .eventsDone => .eventsDone
  | .clearPost => .clearPost
  | .setBlock => .setBlock
  | .swapAsync => .swapAsync
  | .runAsync => .runAsync
  | .asyncDone => .asyncDone
  | .runAfter => .runAfter
  | .afterDone => .afterDone
  | .timersDone => .timersDone
  | .pushInLoop f => .pushInLoop (h.tag .nested f)
  | .pushAfterLoop f => .pushAfterLoop (h.tag .after f)

/-- The history after a step of the loop. -/
def observe (selfId : Thread) (h : LoopHistory α) (a : EventLoopAction (Pushed α))
    (loop : EventLoop (Pushed α)) : LoopHistory α where
  loop := loop
  iteration := match a with
    | .timersDone => h.iteration + 1
    | _ => h.iteration
  pushed := h.pushed ++ a.procs
  executions := h.executions ++ (loop.executed.drop h.loop.executed.length).map fun p =>
    ⟨a.thread selfId, h.iteration, p⟩
  swapped := match a with
    | .swapAsync => h.pushedOf .async
    | _ => h.swapped

/-- The steps.  `push` and `wakeup` of the loop thread are no steps: there
`isInLoopThread` holds. -/
def next (selfId : Thread) (h : LoopHistory α) (a : EventLoopAction α) : Option (LoopHistory α) :=
  match a with
  | .push t _ | .wakeup t =>
      if t = selfId then none else (h.loop.next (h.action a)).map (h.observe selfId (h.action a))
  | _ => (h.loop.next (h.action a)).map (h.observe selfId (h.action a))

def system (selfId : Thread) (α : Type) : System (LoopHistory α) (EventLoopAction α) where
  init h := h = initial
  next := next selfId

variable {selfId : Thread} {h h' : LoopHistory α}

theorem exists_of_next {a : EventLoopAction α} (hnext : h.next selfId a = some h') :
    ∃ loop, h.loop.next (h.action a) = some loop ∧ h' = h.observe selfId (h.action a) loop := by
  have hmap : (h.loop.next (h.action a)).map (h.observe selfId (h.action a)) = some h' := by
    unfold next at hnext
    split at hnext
    · exact (Option.ite_none_left_eq_some.mp hnext).2
    · exact (Option.ite_none_left_eq_some.mp hnext).2
    · exact hnext
  obtain ⟨loop, hloop, rfl⟩ := Option.map_eq_some_iff.mp hmap
  exact ⟨loop, hloop, rfl⟩

/-- The loop of a reachable history is reachable. -/
theorem reachable_loop (hreach : (system selfId α).Reachable h) :
    (EventLoop.system (Pushed α)).Reachable h.loop := by
  refine hreach.invariant (I := fun h => (EventLoop.system (Pushed α)).Reachable h.loop)
    (fun h hinit => ?_) fun h a h' _ hloop hnext => ?_
  · rw [show h = initial from hinit]
    exact .init rfl
  · obtain ⟨loop, hstep, rfl⟩ := exists_of_next hnext
    exact hloop.step hstep

/-! ## The invariant -/

/-- The swap of the after-loop procs is still ahead in this iteration. -/
def BeforeAfter (pc : LoopPc) : Prop := pc ≠ .afterProcs ∧ pc ≠ .timers

/-- All procs that are queued or copied. -/
def waiting (h : LoopHistory α) : Multiset (Pushed α) :=
  ↑h.loop.mCopyAsyncProcs + ↑h.loop.mAsyncProcs + (↑h.loop.mCopyAfterLoopProcs +
    ↑h.loop.mAfterLoopProcs)

structure Inv (selfId : Thread) (h : LoopHistory α) : Prop where
  numbered : h.pushed.map Pushed.number = List.range h.pushed.length
  threads : ∀ e ∈ h.executions, e.thread = selfId
  conserved : (h.executions.map Execution.pushed : Multiset (Pushed α)) + h.waiting = h.pushed
  async : h.executedOf .async ++ h.loop.mCopyAsyncProcs ++ h.loop.mAsyncProcs = h.pushedOf .async
  swapped : h.executedOf .async ++ h.loop.mCopyAsyncProcs = h.swapped
  after : h.executedOf .after ++ h.loop.mCopyAfterLoopProcs ++ h.loop.mAfterLoopProcs =
    h.pushedOf .after
  copied : h.loop.pc ≠ .afterProcs → h.loop.mCopyAfterLoopProcs = []
  /-- Which after-loop procs wait for the next swap. -/
  queued : ∀ p ∈ h.loop.mAfterLoopProcs,
    (p.iteration = h.iteration ∧ (BeforeAfter h.loop.pc → p.whileAfter = false)) ∨
      (p.iteration + 1 = h.iteration ∧ BeforeAfter h.loop.pc)
  running : ∀ p ∈ h.loop.mCopyAfterLoopProcs,
    (p.iteration = h.iteration ∧ p.whileAfter = false) ∨ p.iteration + 1 = h.iteration
  executed : ∀ e ∈ h.executions, e.iteration ≤ h.iteration ∧
    (e.pushed.kind = .after → BeforeAfter h.loop.pc → e.iteration < h.iteration) ∧
    (e.pushed.kind = .after → e.pushed.whileAfter = true →
      e.iteration = e.pushed.iteration + 1)
  polled : ∀ zeroTimeout, h.loop.pc = .waiting zeroTimeout →
    zeroTimeout = !h.loop.mAfterLoopProcs.isEmpty

theorem inv_initial : (initial : LoopHistory α).Inv selfId := by
  constructor <;> simp [initial, EventLoop.initial, waiting, executedOf, pushedOf]

/-- A step that executes and pushes nothing. -/
theorem observe_of_quiet {a : EventLoopAction (Pushed α)} {loop : EventLoop (Pushed α)}
    (hprocs : a.procs = []) (hexecuted : loop.executed = h.loop.executed)
    (htimers : a ≠ .timersDone) (hswap : a ≠ .swapAsync) :
    h.observe selfId a loop = { h with loop := loop } := by
  unfold observe
  rw [hprocs, hexecuted, List.drop_length]
  cases a <;> simp_all

/-- A step that leaves the queues alone and does not pass the swap of the after-loop
procs. -/
theorem Inv.frame (inv : h.Inv selfId) {loop : EventLoop (Pushed α)}
    (hasync : loop.mAsyncProcs = h.loop.mAsyncProcs)
    (hcopyAsync : loop.mCopyAsyncProcs = h.loop.mCopyAsyncProcs)
    (hafter : loop.mAfterLoopProcs = h.loop.mAfterLoopProcs)
    (hcopyAfter : loop.mCopyAfterLoopProcs = h.loop.mCopyAfterLoopProcs)
    (hbefore : BeforeAfter loop.pc ↔ BeforeAfter h.loop.pc)
    (hcopied : loop.pc ≠ .afterProcs → h.loop.mCopyAfterLoopProcs = [])
    (hpolled : ∀ zeroTimeout, loop.pc = .waiting zeroTimeout →
      zeroTimeout = !h.loop.mAfterLoopProcs.isEmpty) :
    { h with loop := loop }.Inv selfId where
  numbered := inv.numbered
  threads := inv.threads
  conserved := by
    simp only [waiting, hasync, hcopyAsync, hafter, hcopyAfter]
    exact inv.conserved
  async := by
    rw [hasync, hcopyAsync]
    exact inv.async
  swapped := by
    rw [hcopyAsync]
    exact inv.swapped
  after := by
    rw [hafter, hcopyAfter]
    exact inv.after
  copied := by
    rw [hcopyAfter]
    exact hcopied
  queued := by
    simp only [hafter, hbefore]
    exact inv.queued
  running := by
    rw [hcopyAfter]
    exact inv.running
  executed := by
    simp only [hbefore]
    exact inv.executed
  polled := by
    rw [hafter]
    exact hpolled

/-- The queues and what the loop has executed, which the steps of other threads (but a
push) and most steps of the loop thread leave alone. -/
structure SameQueues (s s' : EventLoop (Pushed α)) : Prop where
  async : s'.mAsyncProcs = s.mAsyncProcs
  copyAsync : s'.mCopyAsyncProcs = s.mCopyAsyncProcs
  after : s'.mAfterLoopProcs = s.mAfterLoopProcs
  copyAfter : s'.mCopyAfterLoopProcs = s.mCopyAfterLoopProcs
  executed : s'.executed = s.executed

theorem Inv.quiet (inv : h.Inv selfId) {a : EventLoopAction (Pushed α)}
    {loop : EventLoop (Pushed α)} (hsame : SameQueues h.loop loop) (hprocs : a.procs = [])
    (htimers : a ≠ .timersDone) (hswap : a ≠ .swapAsync)
    (hbefore : BeforeAfter loop.pc ↔ BeforeAfter h.loop.pc)
    (hcopied : loop.pc ≠ .afterProcs → h.loop.mCopyAfterLoopProcs = [])
    (hpolled : ∀ zeroTimeout, loop.pc = .waiting zeroTimeout →
      zeroTimeout = !h.loop.mAfterLoopProcs.isEmpty) :
    (h.observe selfId a loop).Inv selfId := by
  rw [observe_of_quiet hprocs hsame.executed htimers hswap]
  exact inv.frame hsame.async hsame.copyAsync hsame.after hsame.copyAfter hbefore hcopied hpolled

/-- A step that also leaves the place of the loop thread alone. -/
theorem Inv.elsewhere (inv : h.Inv selfId) {a : EventLoopAction (Pushed α)}
    {loop : EventLoop (Pushed α)} (hsame : SameQueues h.loop loop) (hprocs : a.procs = [])
    (htimers : a ≠ .timersDone) (hswap : a ≠ .swapAsync) (hpc : loop.pc = h.loop.pc) :
    (h.observe selfId a loop).Inv selfId := by
  refine inv.quiet hsame hprocs htimers hswap (by rw [hpc]) ?_ ?_
  · rw [hpc]
    exact inv.copied
  · rw [hpc]
    exact inv.polled

/-- A step of the loop thread before the swap of the after-loop procs. -/
theorem Inv.advance (inv : h.Inv selfId) {a : EventLoopAction (Pushed α)}
    {loop : EventLoop (Pushed α)} (hsame : SameQueues h.loop loop) (hprocs : a.procs = [])
    (htimers : a ≠ .timersDone) (hswap : a ≠ .swapAsync) (hbefore : BeforeAfter h.loop.pc)
    (hafter : BeforeAfter loop.pc) (hwaiting : ∀ zeroTimeout, loop.pc ≠ .waiting zeroTimeout) :
    (h.observe selfId a loop).Inv selfId :=
  inv.quiet hsame hprocs htimers hswap (iff_of_true hafter hbefore)
    (fun _ => inv.copied hbefore.1) fun zeroTimeout hpc => absurd hpc (hwaiting zeroTimeout)

/-! ### Pushes -/

theorem numbered_push (h : LoopHistory α) (kind : PushKind) (f : α)
    (hnumbered : h.pushed.map Pushed.number = List.range h.pushed.length) :
    (h.pushed ++ [h.tag kind f]).map Pushed.number =
      List.range (h.pushed ++ [h.tag kind f]).length := by
  rw [List.map_append, hnumbered, List.length_append, List.length_singleton, List.range_succ]
  rfl

theorem filter_kind (p : Pushed α) (k : PushKind) :
    ([p].filter fun p => p.kind = k) = if p.kind = k then [p] else [] := by
  by_cases hkind : p.kind = k <;> simp [hkind]

theorem pushedOf_push (h : LoopHistory α) (kind : PushKind) (f : α) (k : PushKind) :
    ((h.pushed ++ [h.tag kind f]).filter fun p => p.kind = k) =
      h.pushedOf k ++ if kind = k then [h.tag kind f] else [] := by
  rw [List.filter_append, filter_kind]
  rfl

/-- Another thread pushes. -/
theorem Inv.pushAsync (inv : h.Inv selfId) {loop : EventLoop (Pushed α)} (f : α)
    (hasync : loop.mAsyncProcs = h.loop.mAsyncProcs ++ [h.tag .async f])
    (hcopyAsync : loop.mCopyAsyncProcs = h.loop.mCopyAsyncProcs)
    (hafter : loop.mAfterLoopProcs = h.loop.mAfterLoopProcs)
    (hcopyAfter : loop.mCopyAfterLoopProcs = h.loop.mCopyAfterLoopProcs)
    (hpc : loop.pc = h.loop.pc) :
    { h with loop := loop, pushed := h.pushed ++ [h.tag .async f] }.Inv selfId where
  numbered := numbered_push h .async f inv.numbered
  threads := inv.threads
  conserved := by
    have hconserved := inv.conserved
    simp only [waiting] at hconserved ⊢
    rw [hasync, hcopyAsync, hafter, hcopyAfter, ← Multiset.coe_add, ← Multiset.coe_add,
      ← hconserved]
    abel
  async := by
    have hpushed := pushedOf_push h .async f .async
    rw [if_pos rfl, ← inv.async] at hpushed
    rw [hasync, hcopyAsync, ← List.append_assoc]
    exact hpushed.symm
  swapped := by
    rw [hcopyAsync]
    exact inv.swapped
  after := by
    have hpushed := pushedOf_push h .async f .after
    rw [if_neg (by decide), List.append_nil, ← inv.after] at hpushed
    rw [hafter, hcopyAfter]
    exact hpushed.symm
  copied := by
    rw [hcopyAfter, hpc]
    exact inv.copied
  queued := by
    rw [hafter, hpc]
    exact inv.queued
  running := by
    rw [hcopyAfter]
    exact inv.running
  executed := by
    rw [hpc]
    exact inv.executed
  polled := by
    rw [hafter, hpc]
    exact inv.polled

/-- The loop thread pushes an after-loop proc. -/
theorem Inv.pushAfter (inv : h.Inv selfId) (f : α) (hcode : h.loop.inUserCode = true) :
    { h with
      loop := { h.loop with mAfterLoopProcs := h.loop.mAfterLoopProcs ++ [h.tag .after f] }
      pushed := h.pushed ++ [h.tag .after f] }.Inv selfId where
  numbered := numbered_push h .after f inv.numbered
  threads := inv.threads
  conserved := by
    have hconserved := inv.conserved
    simp only [waiting] at hconserved ⊢
    rw [← Multiset.coe_add, ← Multiset.coe_add, ← hconserved]
    abel
  async := by
    have hpushed := pushedOf_push h .after f .async
    rw [if_neg (by decide), List.append_nil, ← inv.async] at hpushed
    exact hpushed.symm
  swapped := inv.swapped
  after := by
    have hpushed := pushedOf_push h .after f .after
    rw [if_pos rfl, ← inv.after] at hpushed
    rw [← List.append_assoc]
    exact hpushed.symm
  copied := inv.copied
  queued p hp := by
    rcases List.mem_append.mp hp with hold | hnew
    · exact inv.queued p hold
    · rw [List.mem_singleton.mp hnew]
      exact .inl ⟨rfl, fun hbefore => decide_eq_false hbefore.1⟩
  running := inv.running
  executed := inv.executed
  polled zeroTimeout hpc := by
    have hpc : h.loop.pc = .waiting zeroTimeout := hpc
    rw [EventLoop.inUserCode, hpc] at hcode
    cases hcode

/-! ### Executions -/

/-- The procs in the queues of a kind are of that kind. -/
theorem Inv.kind_async (inv : h.Inv selfId) {p : Pushed α}
    (hp : p ∈ h.loop.mCopyAsyncProcs) : p.kind = .async := by
  have hmem : p ∈ h.pushedOf .async := by
    rw [← inv.async]
    exact List.mem_append_left _ (List.mem_append_right _ hp)
  exact of_decide_eq_true (List.mem_filter.mp hmem).2

theorem Inv.kind_after (inv : h.Inv selfId) {p : Pushed α}
    (hp : p ∈ h.loop.mCopyAfterLoopProcs) : p.kind = .after := by
  have hmem : p ∈ h.pushedOf .after := by
    rw [← inv.after]
    exact List.mem_append_left _ (List.mem_append_right _ hp)
  exact of_decide_eq_true (List.mem_filter.mp hmem).2

/-- An execution by the loop thread, now. -/
def execution (selfId : Thread) (h : LoopHistory α) (p : Pushed α) : Execution α :=
  ⟨selfId, h.iteration, p⟩

theorem executedOf_execute (h : LoopHistory α) (p : Pushed α) (k : PushKind) :
    (((h.executions ++ [h.execution selfId p]).map Execution.pushed).filter fun p => p.kind = k) =
      h.executedOf k ++ if p.kind = k then [p] else [] := by
  rw [List.map_append, List.filter_append, List.map_singleton, filter_kind]
  rfl

/-- What an execution in the current iteration adds. -/
theorem Inv.executed_execute (inv : h.Inv selfId) (p : Pushed α)
    (hbefore : p.kind = .after → ¬BeforeAfter h.loop.pc)
    (hafter : p.kind = .after → p.whileAfter = true → h.iteration = p.iteration + 1) :
    ∀ e ∈ h.executions ++ [h.execution selfId p], e.iteration ≤ h.iteration ∧
      (e.pushed.kind = .after → BeforeAfter h.loop.pc → e.iteration < h.iteration) ∧
      (e.pushed.kind = .after → e.pushed.whileAfter = true →
        e.iteration = e.pushed.iteration + 1) := by
  intro e he
  rcases List.mem_append.mp he with hold | hnew
  · exact inv.executed e hold
  · rw [List.mem_singleton.mp hnew]
    exact ⟨Nat.le_refl _, fun hkind hplace => absurd hplace (hbefore hkind), hafter⟩

theorem threads_execute (hthreads : ∀ e ∈ h.executions, e.thread = selfId) (p : Pushed α) :
    ∀ e ∈ h.executions ++ [h.execution selfId p], e.thread = selfId := by
  intro e he
  rcases List.mem_append.mp he with hold | hnew
  · exact hthreads e hold
  · rw [List.mem_singleton.mp hnew]
    rfl

/-- The loop thread executes its own push. -/
theorem Inv.pushNested (inv : h.Inv selfId) (f : α) (executed : List (Pushed α)) :
    { h with
      loop := { h.loop with executed := executed }
      pushed := h.pushed ++ [h.tag .nested f]
      executions := h.executions ++ [h.execution selfId (h.tag .nested f)] }.Inv selfId where
  numbered := numbered_push h .nested f inv.numbered
  threads := threads_execute inv.threads _
  conserved := by
    have hconserved := inv.conserved
    simp only [waiting, List.map_append, List.map_singleton, execution] at hconserved ⊢
    rw [← Multiset.coe_add, ← Multiset.coe_add, ← hconserved]
    abel
  async := by
    have hpushed := pushedOf_push h .nested f .async
    have hexecuted := @executedOf_execute _ selfId h (h.tag .nested f) .async
    rw [if_neg (by decide), List.append_nil] at hpushed
    rw [if_neg (by simp [tag]), List.append_nil] at hexecuted
    unfold executedOf pushedOf
    rw [hpushed, hexecuted]
    exact inv.async
  swapped := by
    have hexecuted := @executedOf_execute _ selfId h (h.tag .nested f) .async
    rw [if_neg (by simp [tag]), List.append_nil] at hexecuted
    unfold executedOf
    rw [hexecuted]
    exact inv.swapped
  after := by
    have hpushed := pushedOf_push h .nested f .after
    have hexecuted := @executedOf_execute _ selfId h (h.tag .nested f) .after
    rw [if_neg (by decide), List.append_nil] at hpushed
    rw [if_neg (by simp [tag]), List.append_nil] at hexecuted
    unfold executedOf pushedOf
    rw [hpushed, hexecuted]
    exact inv.after
  copied := inv.copied
  queued := inv.queued
  running := inv.running
  executed := inv.executed_execute (h.tag .nested f) (fun hkind => by cases hkind)
    fun hkind => by cases hkind
  polled := inv.polled

theorem coe_cons (p : Pushed α) (rest : List (Pushed α)) :
    (↑(p :: rest) : Multiset (Pushed α)) = ↑[p] + ↑rest := by
  rw [Multiset.coe_add, List.singleton_append]

/-- The next proc of another thread is executed. -/
theorem Inv.runAsync (inv : h.Inv selfId) {p : Pushed α} {rest : List (Pushed α)}
    (hcopy : h.loop.mCopyAsyncProcs = p :: rest) (executed : List (Pushed α)) :
    { h with
      loop := { h.loop with mCopyAsyncProcs := rest, executed := executed }
      executions := h.executions ++ [h.execution selfId p] }.Inv selfId := by
  have hkind : p.kind = .async := inv.kind_async (by rw [hcopy]; exact List.mem_cons_self)
  have hasync := @executedOf_execute _ selfId h p .async
  have hafter := @executedOf_execute _ selfId h p .after
  rw [if_pos hkind] at hasync
  rw [if_neg (by simp [hkind]), List.append_nil] at hafter
  constructor
  · exact inv.numbered
  · exact threads_execute inv.threads _
  · have hconserved := inv.conserved
    simp only [waiting, List.map_append, List.map_singleton, execution, hcopy] at hconserved ⊢
    rw [← hconserved, ← Multiset.coe_add, coe_cons p rest]
    abel
  · have hold := inv.async
    rw [hcopy] at hold
    unfold executedOf
    rw [hasync]
    simpa [pushedOf] using hold
  · have hold := inv.swapped
    rw [hcopy] at hold
    unfold executedOf
    rw [hasync]
    simpa using hold
  · unfold executedOf
    rw [hafter]
    exact inv.after
  · exact inv.copied
  · exact inv.queued
  · exact inv.running
  · exact inv.executed_execute _ (fun hkind' => absurd (hkind.symm.trans hkind') (by decide))
      fun hkind' => absurd (hkind.symm.trans hkind') (by decide)
  · exact inv.polled

/-- The next after-loop proc is executed. -/
theorem Inv.runAfter (inv : h.Inv selfId) {p : Pushed α} {rest : List (Pushed α)}
    (hpc : h.loop.pc = .afterProcs) (hcopy : h.loop.mCopyAfterLoopProcs = p :: rest)
    (executed : List (Pushed α)) :
    { h with
      loop := { h.loop with mCopyAfterLoopProcs := rest, executed := executed }
      executions := h.executions ++ [h.execution selfId p] }.Inv selfId := by
  have hmem : p ∈ h.loop.mCopyAfterLoopProcs := by
    rw [hcopy]
    exact List.mem_cons_self
  have hkind : p.kind = .after := inv.kind_after hmem
  have hasync := @executedOf_execute _ selfId h p .async
  have hafter := @executedOf_execute _ selfId h p .after
  rw [if_neg (by simp [hkind]), List.append_nil] at hasync
  rw [if_pos hkind] at hafter
  constructor
  · exact inv.numbered
  · exact threads_execute inv.threads _
  · have hconserved := inv.conserved
    simp only [waiting, List.map_append, List.map_singleton, execution, hcopy] at hconserved ⊢
    rw [← hconserved, ← Multiset.coe_add, coe_cons p rest]
    abel
  · unfold executedOf
    rw [hasync]
    exact inv.async
  · unfold executedOf
    rw [hasync]
    exact inv.swapped
  · have hold := inv.after
    rw [hcopy] at hold
    unfold executedOf
    rw [hafter]
    simpa [pushedOf] using hold
  · exact fun hne => absurd hpc hne
  · exact inv.queued
  · exact fun q hq => inv.running q (by rw [hcopy]; exact List.mem_cons_of_mem _ hq)
  · refine inv.executed_execute _ (fun _ hbefore => hbefore.1 hpc) fun _ hwhile => ?_
    rcases inv.running p hmem with ⟨-, hnot⟩ | hnext
    · rw [hnot] at hwhile
      cases hwhile
    · exact hnext.symm
  · exact inv.polled

/-! ### The swaps and the end of an iteration -/

theorem Inv.swapAsync (inv : h.Inv selfId) (hcopied : h.loop.mCopyAsyncProcs = [])
    (hpc : h.loop.pc = .swapAsync) :
    { h with
      loop := { h.loop with
        pc := .asyncProcs
        mAsyncProcs := h.loop.mCopyAsyncProcs
        mCopyAsyncProcs := h.loop.mAsyncProcs }
      swapped := h.pushedOf .async }.Inv selfId := by
  have hbefore : BeforeAfter .asyncProcs ↔ BeforeAfter h.loop.pc := by simp [BeforeAfter, hpc]
  have hasync := inv.async
  rw [hcopied, List.append_nil] at hasync
  constructor
  · exact inv.numbered
  · exact inv.threads
  · have hconserved := inv.conserved
    simp only [waiting] at hconserved ⊢
    rw [← hconserved]
    abel
  · show _ ++ h.loop.mAsyncProcs ++ h.loop.mCopyAsyncProcs = _
    rw [hcopied, List.append_nil]
    exact hasync
  · exact hasync
  · exact inv.after
  · exact fun _ => inv.copied (by simp [hpc])
  · simp only [hbefore]
    exact inv.queued
  · exact inv.running
  · simp only [hbefore]
    exact inv.executed
  · exact fun _ hwaiting => by cases hwaiting

/-- What has waited for the swap is copied, and none of it was pushed while after-loop
procs were running in this iteration. -/
theorem Inv.asyncDone (inv : h.Inv selfId) (hpc : h.loop.pc = .asyncProcs) :
    { h with loop := { h.loop with
        pc := .afterProcs
        mAfterLoopProcs := h.loop.mCopyAfterLoopProcs
        mCopyAfterLoopProcs := h.loop.mAfterLoopProcs } }.Inv selfId := by
  have hbefore : BeforeAfter h.loop.pc := by simp [BeforeAfter, hpc]
  have hcopied := inv.copied (by simp [hpc])
  constructor
  · exact inv.numbered
  · exact inv.threads
  · have hconserved := inv.conserved
    simp only [waiting] at hconserved ⊢
    rw [← hconserved]
    abel
  · exact inv.async
  · exact inv.swapped
  · have hafter := inv.after
    rw [hcopied, List.append_nil] at hafter
    show _ ++ h.loop.mAfterLoopProcs ++ h.loop.mCopyAfterLoopProcs = _
    rw [hcopied, List.append_nil]
    exact hafter
  · exact fun hne => absurd rfl hne
  · intro p hp
    rw [hcopied] at hp
    cases hp
  · intro p hp
    exact (inv.queued p hp).imp (fun hnow => ⟨hnow.1, hnow.2 hbefore⟩) fun hlast => hlast.1
  · exact fun e he => ⟨(inv.executed e he).1, fun _ hplace => absurd rfl hplace.1,
      (inv.executed e he).2.2⟩
  · exact fun _ hwaiting => by cases hwaiting

theorem Inv.timersDone (inv : h.Inv selfId) (hpc : h.loop.pc = .timers) :
    { h with loop := { h.loop with pc := .poll }, iteration := h.iteration + 1 }.Inv selfId := by
  have hcopied := inv.copied (by simp [hpc])
  have hnot : ¬BeforeAfter h.loop.pc := by simp [BeforeAfter, hpc]
  constructor
  · exact inv.numbered
  · exact inv.threads
  · exact inv.conserved
  · exact inv.async
  · exact inv.swapped
  · exact inv.after
  · exact fun _ => hcopied
  · intro p hp
    rcases inv.queued p hp with ⟨hnow, -⟩ | ⟨-, hplace⟩
    · exact .inr ⟨congrArg (· + 1) hnow, by simp [BeforeAfter]⟩
    · exact absurd hplace hnot
  · intro p hp
    rw [hcopied] at hp
    cases hp
  · intro e he
    obtain ⟨hle, -, hnext⟩ := inv.executed e he
    exact ⟨Nat.le_succ_of_le hle, fun _ _ => Nat.lt_succ_of_le hle, hnext⟩
  · exact fun _ hwaiting => by cases hwaiting

theorem Inv.next (inv : h.Inv selfId) (hloop : h.loop.Inv) {a : EventLoopAction α}
    (hnext : h.next selfId a = some h') : h'.Inv selfId := by
  obtain ⟨loop, hstep, rfl⟩ := exists_of_next hnext
  cases a with
  -- A push of another thread goes behind the swapped ones and waits for the next swap.
  | push t f =>
      obtain ⟨-, rfl⟩ := EventLoop.eq_of_threadNext hstep
      have hpushed := @Inv.pushAsync _ _ _ inv { h.loop.setThread t .check with
        mAsyncProcs := h.loop.mAsyncProcs ++ [h.tag .async f] } f rfl rfl rfl rfl rfl
      simpa [observe, action, EventLoopAction.procs, EventLoop.setThread] using hpushed
  -- What another thread does after its push is about the flags and the descriptor.
  | wakeup t =>
      obtain ⟨-, rfl⟩ := EventLoop.eq_of_threadNext hstep
      exact inv.elsewhere ⟨rfl, rfl, rfl, rfl, rfl⟩ rfl (by simp [action]) (by simp [action]) rfl
  | check t =>
      obtain ⟨-, rfl⟩ := EventLoop.eq_of_threadNext hstep
      exact inv.elsewhere ⟨rfl, rfl, rfl, rfl, rfl⟩ rfl (by simp [action]) (by simp [action]) rfl
  | exchange t =>
      obtain ⟨-, rfl⟩ := EventLoop.eq_of_threadNext hstep
      exact inv.elsewhere ⟨rfl, rfl, rfl, rfl, rfl⟩ rfl (by simp [action]) (by simp [action]) rfl
  | write t =>
      obtain ⟨-, rfl⟩ := EventLoop.eq_of_threadNext hstep
      have hsame : SameQueues h.loop (h.loop.writeEventfd.setThread t .idle) := by
        unfold EventLoop.writeEventfd
        split <;> exact ⟨rfl, rfl, rfl, rfl, rfl⟩
      refine inv.elsewhere hsame rfl (by simp [action]) (by simp [action]) ?_
      unfold EventLoop.writeEventfd
      split <;> rfl
  -- Whether `loop()` waits is decided by the after-loop procs that are queued.
  | poll =>
      obtain ⟨hpc, rfl⟩ := EventLoop.eq_of_loopNext hstep
      refine inv.quiet ⟨rfl, rfl, rfl, rfl, rfl⟩ rfl (by simp [action]) (by simp [action])
        (by simp [BeforeAfter, hpc]) (fun _ => inv.copied (by simp [hpc])) ?_
      intro zeroTimeout hwaiting
      cases hwaiting
      rfl
  | wait wakeupEntry =>
      simp only [action, EventLoop.next] at hstep
      split at hstep
      · rename_i hpc
        split at hstep
        · cases hstep
        · cases hstep
          exact inv.advance ⟨rfl, rfl, rfl, rfl, rfl⟩ rfl (by simp [action]) (by simp [action])
            (by simp [BeforeAfter, hpc]) (by simp [BeforeAfter]) (by simp)
      · cases hstep
  -- Until the swap the loop thread touches no queue.
  | clearBlock =>
      simp only [action, EventLoop.next] at hstep
      split at hstep
      · rename_i hpc
        cases hstep
        exact inv.advance ⟨rfl, rfl, rfl, rfl, rfl⟩ rfl (by simp [action]) (by simp [action])
          (by simp [BeforeAfter, hpc]) (by simp [BeforeAfter]) (by simp)
      · cases hstep
  | drain =>
      obtain ⟨hpc, rfl⟩ := EventLoop.eq_of_loopNext hstep
      exact inv.advance ⟨rfl, rfl, rfl, rfl, rfl⟩ rfl (by simp [action]) (by simp [action])
        (by simp [BeforeAfter, hpc]) (by simp [BeforeAfter]) (by simp)
  | eventsDone =>
      obtain ⟨hpc, rfl⟩ := EventLoop.eq_of_loopNext hstep
      exact inv.advance ⟨rfl, rfl, rfl, rfl, rfl⟩ rfl (by simp [action]) (by simp [action])
        (by simp [BeforeAfter, hpc]) (by simp [BeforeAfter]) (by simp)
  | clearPost =>
      obtain ⟨hpc, rfl⟩ := EventLoop.eq_of_loopNext hstep
      exact inv.advance ⟨rfl, rfl, rfl, rfl, rfl⟩ rfl (by simp [action]) (by simp [action])
        (by simp [BeforeAfter, hpc]) (by simp [BeforeAfter]) (by simp)
  | setBlock =>
      obtain ⟨hpc, rfl⟩ := EventLoop.eq_of_loopNext hstep
      exact inv.advance ⟨rfl, rfl, rfl, rfl, rfl⟩ rfl (by simp [action]) (by simp [action])
        (by simp [BeforeAfter, hpc]) (by simp [BeforeAfter]) (by simp)
  -- The swap moves the procs of other threads into the copy, in push order.
  | swapAsync =>
      obtain ⟨hpc, rfl⟩ := EventLoop.eq_of_loopNext hstep
      have hswapped := inv.swapAsync (hloop.copied (by simp [hpc])) hpc
      simpa [observe, action, EventLoopAction.procs] using hswapped
  -- From here on closures are executed, in the order of their copies.
  | runAsync =>
      simp only [action, EventLoop.next] at hstep
      split at hstep
      · rename_i p rest hcopy
        obtain ⟨-, rfl⟩ := EventLoop.eq_of_loopNext hstep
        have hrun := inv.runAsync hcopy (h.loop.executed ++ [p])
        simpa [observe, action, EventLoopAction.procs, EventLoopAction.thread, execution]
          using hrun
      · cases hstep
  -- The swap of the after-loop procs; what is pushed from now on waits for the next iteration.
  | asyncDone =>
      simp only [action, EventLoop.next] at hstep
      split at hstep
      · obtain ⟨hpc, rfl⟩ := EventLoop.eq_of_loopNext hstep
        have hdone := inv.asyncDone hpc
        simpa [observe, action, EventLoopAction.procs] using hdone
      · cases hstep
  | runAfter =>
      simp only [action, EventLoop.next] at hstep
      split at hstep
      · rename_i p rest hcopy
        obtain ⟨hpc, rfl⟩ := EventLoop.eq_of_loopNext hstep
        have hrun := inv.runAfter hpc hcopy (h.loop.executed ++ [p])
        simpa [observe, action, EventLoopAction.procs, EventLoopAction.thread, execution]
          using hrun
      · cases hstep
  -- No queue changes, but the copy of the after-loop procs is known to be empty.
  | afterDone =>
      simp only [action, EventLoop.next] at hstep
      split at hstep
      · rename_i hempty
        obtain ⟨hpc, rfl⟩ := EventLoop.eq_of_loopNext hstep
        exact inv.quiet ⟨rfl, rfl, rfl, rfl, rfl⟩ rfl (by simp [action]) (by simp [action])
          (by simp [BeforeAfter, hpc]) (fun _ => List.isEmpty_iff.mp hempty)
          fun _ hwaiting => by cases hwaiting
      · cases hstep
  -- The iteration ends: what is queued was pushed in the one that is now the last.
  | timersDone =>
      obtain ⟨hpc, rfl⟩ := EventLoop.eq_of_loopNext hstep
      have hdone := inv.timersDone hpc
      simpa [observe, action, EventLoopAction.procs] using hdone
  -- A push on the loop thread is an execution inside another one.
  | pushInLoop f =>
      simp only [action, EventLoop.next, Option.ite_none_right_eq_some, Option.some.injEq] at hstep
      obtain ⟨-, rfl⟩ := hstep
      have hpushed := inv.pushNested f (h.loop.executed ++ [h.tag .nested f])
      simpa [observe, action, EventLoopAction.procs, EventLoopAction.thread, execution]
        using hpushed
  -- An after-loop proc is only queued, whatever the loop thread is in.
  | pushAfterLoop f =>
      simp only [action, EventLoop.next, Option.ite_none_right_eq_some, Option.some.injEq] at hstep
      obtain ⟨hcode, rfl⟩ := hstep
      have hpushed := inv.pushAfter f hcode
      simpa [observe, action, EventLoopAction.procs] using hpushed

theorem inv_of_reachable (hreach : (system selfId α).Reachable h) : h.Inv selfId :=
  hreach.invariant (fun _ hinit => hinit ▸ inv_initial) fun _ _ _ hr inv hnext =>
    inv.next (EventLoop.inv_of_reachable (reachable_loop hr)) hnext

/-! ## The results -/

/-- No push is executed twice. -/
theorem Inv.nodup (inv : h.Inv selfId) :
    (h.executions.map fun e => e.pushed.number).Nodup := by
  have hle : (h.executions.map Execution.pushed : Multiset (Pushed α)) ≤ h.pushed := by
    rw [← inv.conserved]
    exact Multiset.le_add_right _ _
  have hnumbers := Multiset.map_le_map (f := Pushed.number) hle
  rw [Multiset.map_coe, Multiset.map_coe, List.map_map, inv.numbered] at hnumbers
  exact Multiset.coe_nodup.mp (Multiset.nodup_of_le hnumbers (Multiset.coe_nodup.mpr List.nodup_range))

theorem Inv.mem_pushed (inv : h.Inv selfId) {e : Execution α} (he : e ∈ h.executions) :
    e.pushed ∈ h.pushed := by
  have hmem : e.pushed ∈ (h.pushed : Multiset (Pushed α)) := by
    rw [← inv.conserved]
    exact Multiset.mem_add.mpr (.inl (Multiset.mem_coe.mpr (List.mem_map_of_mem he)))
  exact Multiset.mem_coe.mp hmem

/-- An after-loop proc was executed, is about to be, or waits for the swap. -/
theorem Inv.after_cases (inv : h.Inv selfId) {p : Pushed α} (hp : p ∈ h.pushedOf .after) :
    (∃ e ∈ h.executions, e.pushed = p) ∨ p ∈ h.loop.mCopyAfterLoopProcs ∨
      p ∈ h.loop.mAfterLoopProcs := by
  rw [← inv.after, List.append_assoc] at hp
  rcases List.mem_append.mp hp with hexecuted | hwaiting
  · obtain ⟨e, he, heq⟩ := List.mem_map.mp (List.mem_filter.mp hexecuted).1
    exact .inl ⟨e, he, heq⟩
  · exact .inr (List.mem_append.mp hwaiting)

/-- A proc that was pushed while after-loop procs were running is executed in the
iteration after that. -/
theorem Inv.executed_next (inv : h.Inv selfId) {p : Pushed α} (hp : p ∈ h.pushedOf .after)
    (hpast : p.iteration + 1 < h.iteration) : ∃ e ∈ h.executions, e.pushed = p := by
  rcases inv.after_cases hp with hexecuted | hcopied | hqueued
  · exact hexecuted
  · rcases inv.running p hcopied with ⟨hnow, -⟩ | hlast <;> omega
  · rcases inv.queued p hqueued with ⟨hnow, -⟩ | ⟨hlast, -⟩ <;> omega

/-- That iteration polls with timeout zero. -/
theorem Inv.polls_zero (inv : h.Inv selfId) {p : Pushed α} (hp : p ∈ h.pushedOf .after)
    (hwhile : p.whileAfter = true) (hnext : h.iteration = p.iteration + 1) {zeroTimeout : Bool}
    (hpc : h.loop.pc = .waiting zeroTimeout) : zeroTimeout = true := by
  have hbefore : BeforeAfter h.loop.pc := by simp [BeforeAfter, hpc]
  have hkind : p.kind = .after := of_decide_eq_true (List.mem_filter.mp hp).2
  rw [inv.polled zeroTimeout hpc]
  rcases inv.after_cases hp with ⟨e, he, rfl⟩ | hcopied | hqueued
  · obtain ⟨-, hearlier, hiteration⟩ := inv.executed e he
    have hlt := hearlier hkind hbefore
    have heq := hiteration hkind hwhile
    omega
  · rw [inv.copied hbefore.1] at hcopied
    cases hcopied
  · cases hafter : h.loop.mAfterLoopProcs with
    | nil =>
        rw [hafter] at hqueued
        cases hqueued
    | cons q rest => rfl

/-- **Queue semantics.**  Every push is executed at most once and only by the loop
thread; the procs of other threads are executed in the order in which their pushes took
the lock, the after-loop procs in push order; one that is pushed while after-loop procs
are running is executed in the next iteration, which polls with timeout zero; and at
the end of an iteration every proc that was queued before its swap was executed. -/
theorem event_queue_semantics (hreach : (system selfId α).Reachable h) :
    (∀ e ∈ h.executions, e.thread = selfId ∧ e.pushed ∈ h.pushed) ∧
    h.pushed.map Pushed.number = List.range h.pushed.length ∧
    (h.executions.map fun e => e.pushed.number).Nodup ∧
    h.executedOf .async <+: h.pushedOf .async ∧
    h.executedOf .after <+: h.pushedOf .after ∧
    (∀ p ∈ h.pushedOf .after, p.whileAfter = true →
      (∀ e ∈ h.executions, e.pushed = p → e.iteration = p.iteration + 1) ∧
      (p.iteration + 1 < h.iteration → ∃ e ∈ h.executions, e.pushed = p) ∧
      ∀ zeroTimeout, h.iteration = p.iteration + 1 → h.loop.pc = .waiting zeroTimeout →
        zeroTimeout = true) ∧
    (h.loop.pc = .timers ∨ h.loop.pc = .poll → h.executedOf .async = h.swapped) := by
  have inv := inv_of_reachable hreach
  have hloop := EventLoop.inv_of_reachable (reachable_loop hreach)
  refine ⟨fun e he => ⟨inv.threads e he, inv.mem_pushed he⟩, inv.numbered, inv.nodup, ?_, ?_, ?_, ?_⟩
  · exact ⟨_, by rw [← List.append_assoc]; exact inv.async⟩
  · exact ⟨_, by rw [← List.append_assoc]; exact inv.after⟩
  · intro p hp hwhile
    have hkind : p.kind = .after := of_decide_eq_true (List.mem_filter.mp hp).2
    refine ⟨?_, inv.executed_next hp, fun _ hnext hpc => inv.polls_zero hp hwhile hnext hpc⟩
    rintro e he rfl
    exact (inv.executed e he).2.2 hkind hwhile
  · intro hend
    have hcopied : h.loop.mCopyAsyncProcs = [] := by
      refine hloop.copied ?_
      rcases hend with hpc | hpc <;> simp [hpc]
    have hswapped := inv.swapped
    rwa [hcopied, List.append_nil] at hswapped

/-- Another thread pushes `a`, which pushes `b` for the end of the iteration, which pushes
`c` for the end of the next one. -/
def threePushes : List (EventLoopAction Char) :=
  [.push 1 'a', .check 1, .exchange 1, .write 1, .poll, .wait true, .clearBlock, .drain,
    .eventsDone, .clearPost, .setBlock, .swapAsync, .runAsync, .pushAfterLoop 'b', .asyncDone,
    .runAfter, .pushAfterLoop 'c', .afterDone, .timersDone, .poll, .wait false, .clearBlock,
    .eventsDone, .clearPost, .setBlock, .swapAsync, .asyncDone, .runAfter]

theorem event_queue_semantics_three_pushes :
    ∃ h, (system 0 Char).Reachable h ∧
      (h.executions.map fun e => (e.pushed.proc, e.iteration)) = [('a', 0), ('b', 0), ('c', 1)] ∧
      (h.executions.map fun e => e.pushed.number).Nodup := by
  obtain ⟨h, hrun⟩ : ∃ h, (system 0 Char).run initial threePushes = some h :=
    Option.isSome_iff_exists.mp (by decide)
  have hreach := System.reachable_of_run rfl hrun
  have hexecuted : (((system 0 Char).run initial threePushes).map fun h =>
      h.executions.map fun e => (e.pushed.proc, e.iteration)) =
        some [('a', 0), ('b', 0), ('c', 1)] := by decide
  rw [hrun] at hexecuted
  exact ⟨h, hreach, Option.some.inj hexecuted, (event_queue_semantics hreach).2.2.1⟩

end LoopHistory

end Brynet
