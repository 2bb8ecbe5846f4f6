import Brynet.Lib.Transition

/-!
# `MsgQueue`

A queue between one writer and one reader.  The writer pushes into `mWriteList`
and moves it into `mSharedList`; the reader takes `mSharedList` over as its
`mReadList`.  The tests that the methods make before they lock the mutex are
steps of their own, the locked sections are one step each, and the steps of the
two threads interleave arbitrarily.

To follow a message through the lists it carries the number of its push.  The
three lists in a row are then at all times the pushed messages without the popped
ones (`Inv`).
-/

namespace Brynet

open Transition

/-- Where the writer is in `trySyncWrite` or `forceSyncWrite`. -/
inductive WriterPc
  | idle
  | tryTest
  | tryLocked
  | forceTest
  | forceLocked
deriving Repr, DecidableEq

/-- Where the reader is in `syncRead`: it may also be waiting for the condition
variable, which touches no list. -/
inductive ReaderPc
  | idle
  | locked
deriving Repr, DecidableEq

/-- The queue and its two threads. -/
structure MsgQueue (α : Type) where
  mWriteList : List α
  mSharedList : List α
  mReadList : List α
  writer : WriterPc
  reader : ReaderPc
deriving Repr, DecidableEq

namespace MsgQueue

variable {α : Type}

def empty : MsgQueue α := ⟨[], [], [], .idle, .idle⟩

/-- All messages in the queue, the oldest first. -/
def contents (q : MsgQueue α) : List α := q.mReadList ++ q.mSharedList ++ q.mWriteList

/-- `push`. -/
def push (q : MsgQueue α) (t : α) : MsgQueue α := { q with mWriteList := q.mWriteList ++ [t] }

/-- The locked section of `trySyncWrite`. -/
def trySyncWriteLocked (q : MsgQueue α) : MsgQueue α :=
  if q.mWriteList ≠ [] ∧ q.mSharedList = [] then
    { q with mSharedList := q.mWriteList, mWriteList := q.mSharedList }
  else q

/-- The locked section of `forceSyncWrite`. -/
def forceSyncWriteLocked (q : MsgQueue α) : MsgQueue α :=
  if q.mWriteList = [] then q
  else if q.mWriteList.length > q.mSharedList.length then
    -- From the back of `mSharedList`, each message to the front of `mWriteList`.
    { q with
      mSharedList := q.mSharedList.reverse.foldl (fun list x => x :: list) q.mWriteList
      mWriteList := [] }
  else
    { q with
      mSharedList := q.mWriteList.foldl (fun list x => list ++ [x]) q.mSharedList
      mWriteList := [] }

/-- A step of the writer within `trySyncWrite` or `forceSyncWrite`. -/
def writerStep (q : MsgQueue α) : Option (MsgQueue α) :=
  match q.writer with
  | .idle => none
  | .tryTest =>
      if q.mWriteList = [] ∨ q.mSharedList ≠ [] then some { q with writer := .idle }
      else some { q with writer := .tryLocked }
  | .tryLocked => some { q.trySyncWriteLocked with writer := .idle }
  | .forceTest =>
      if q.mSharedList = [] then some { q with writer := .tryTest }
      else some { q with writer := .forceLocked }
  | .forceLocked => some { q.forceSyncWriteLocked with writer := .idle }

/-- `trySyncWrite` is called. -/
def trySyncWrite (q : MsgQueue α) : MsgQueue α := { q with writer := .tryTest }

/-- `forceSyncWrite` is called. -/
def forceSyncWrite (q : MsgQueue α) : MsgQueue α :=
  if q.mWriteList = [] then q else { q with writer := .forceTest }

/-- `popFront`, with the message if it returns true. -/
def popFront (q : MsgQueue α) : Option (α × MsgQueue α) :=
  match q.mReadList with
  | [] => none
  | t :: rest => some (t, { q with mReadList := rest })

/-- `popBack`, with the message if it returns true. -/
def popBack (q : MsgQueue α) : Option (α × MsgQueue α) :=
  q.mReadList.getLast?.map fun t => (t, { q with mReadList := q.mReadList.dropLast })

/-- `syncRead` is called. -/
def syncRead (q : MsgQueue α) : MsgQueue α :=
  if q.mReadList ≠ [] then q else { q with reader := .locked }

/-- The locked section of `syncRead`. -/
def syncReadLocked (q : MsgQueue α) : MsgQueue α :=
  if q.mReadList = [] ∧ q.mSharedList ≠ [] then
    { q with mSharedList := q.mReadList, mReadList := q.mSharedList, reader := .idle }
  else { q with reader := .idle }

/-! ## No method but a pop changes the contents -/

theorem foldl_push_front (list shared : List α) :
    shared.reverse.foldl (fun list x => x :: list) list = shared ++ list := by
  rw [List.foldl_reverse]
  induction shared with
  | nil => rfl
  | cons x rest ih => rw [List.foldr_cons, ih, List.cons_append]

theorem foldl_push_back (list shared : List α) :
    list.foldl (fun list x => list ++ [x]) shared = shared ++ list := by
  induction list generalizing shared with
  | nil => simp
  | cons x rest ih => rw [List.foldl_cons, ih, List.append_assoc, List.singleton_append]

theorem contents_trySyncWriteLocked (q : MsgQueue α) :
    q.trySyncWriteLocked.contents = q.contents := by
  unfold trySyncWriteLocked contents
  split
  · rename_i h
    simp [h.2]
  · rfl

/-- Both directions of the splice keep the order. -/
theorem contents_forceSyncWriteLocked (q : MsgQueue α) :
    q.forceSyncWriteLocked.contents = q.contents := by
  unfold forceSyncWriteLocked contents
  split
  · rfl
  · split
    · rw [foldl_push_front]
      simp
    · rw [foldl_push_back]
      simp

theorem contents_syncReadLocked (q : MsgQueue α) : q.syncReadLocked.contents = q.contents := by
  unfold syncReadLocked contents
  split
  · rename_i h
    simp [h.1]
  · rfl

theorem contents_writerStep {q q' : MsgQueue α} (h : q.writerStep = some q') :
    q'.contents = q.contents := by
  unfold writerStep at h
  split at h
  · cases h
  · split at h <;> cases h <;> rfl
  · cases h
    exact contents_trySyncWriteLocked q
  · split at h <;> cases h <;> rfl
  · cases h
    exact contents_forceSyncWriteLocked q

theorem contents_push (q : MsgQueue α) (t : α) : (q.push t).contents = q.contents ++ [t] := by
  simp [push, contents]

/-- `popFront` takes the oldest message. -/
theorem contents_popFront {q q' : MsgQueue α} {t : α} (h : q.popFront = some (t, q')) :
    q.contents = t :: q'.contents := by
  unfold popFront at h
  split at h
  · cases h
  · rename_i hread
    cases h
    simp [contents, hread]

/-- `popBack` takes one message out of the middle. -/
theorem contents_popBack {q q' : MsgQueue α} {t : α} (h : q.popBack = some (t, q')) :
    ∃ before after, q.contents = before ++ t :: after ∧ q'.contents = before ++ after := by
  unfold popBack at h
  obtain ⟨last, hlast, heq⟩ := Option.map_eq_some_iff.mp h
  cases heq
  refine ⟨q.mReadList.dropLast, q.mSharedList ++ q.mWriteList, ?_, ?_⟩
  · have hread := List.dropLast_append_getLast? t hlast
    rw [contents, ← hread]
    simp
  · simp [contents]

end MsgQueue

/-! ## Runs -/

/-- A message with the number of its push. -/
structure Numbered (α : Type) where
  index : ℕ
  value : α
deriving Repr, DecidableEq

/-- A queue with what has happened to it: the messages pushed so far, those popped,
in this order, and whether one of them was popped from the back. -/
structure MsgQueueRun (α : Type) where
  queue : MsgQueue (Numbered α)
  pushed : List (Numbered α)
  popped : List (Numbered α)
  poppedBack : Bool
deriving Repr, DecidableEq

inductive MsgQueueAction (α : Type)
  | push (value : α)
  | trySyncWrite
  | forceSyncWrite
  | writer
  | popFront
  | popBack
  | syncRead
  | reader
deriving Repr, DecidableEq

namespace MsgQueueRun

variable {α : Type}

def initial : MsgQueueRun α := ⟨.empty, [], [], false⟩

/-- The steps.  Each thread calls a method only when it is not inside one. -/
def next (s : MsgQueueRun α) : MsgQueueAction α → Option (MsgQueueRun α)
  | .push value =>
      if s.queue.writer = .idle then
        let message : Numbered α := ⟨s.pushed.length, value⟩
        some { s with queue := s.queue.push message, pushed := s.pushed ++ [message] }
      else none
  | .trySyncWrite =>
      if s.queue.writer = .idle then some { s with queue := s.queue.trySyncWrite } else none
  | .forceSyncWrite =>
      if s.queue.writer = .idle then some { s with queue := s.queue.forceSyncWrite } else none
  | .writer => s.queue.writerStep.map fun queue => { s with queue := queue }
  | .popFront =>
      if s.queue.reader = .idle then
        s.queue.popFront.map fun popped =>
          { s with queue := popped.2, popped := s.popped ++ [popped.1] }
      else none
  | .popBack =>
      if s.queue.reader = .idle then
        s.queue.popBack.map fun popped =>
          { s with queue := popped.2, popped := s.popped ++ [popped.1], poppedBack := true }
      else none
  | .syncRead =>
      if s.queue.reader = .idle then some { s with queue := s.queue.syncRead } else none
  | .reader =>
      if s.queue.reader = .locked then some { s with queue := s.queue.syncReadLocked } else none

def system (α : Type) : System (MsgQueueRun α) (MsgQueueAction α) where
  init s := s = initial
  next := next

/-- The pushed messages, in push order, without the popped ones. -/
def unpopped (s : MsgQueueRun α) : List (Numbered α) :=
  s.pushed.filter fun m => m.index ∉ s.popped.map Numbered.index

structure Inv (s : MsgQueueRun α) : Prop where
  numbered : s.pushed.map Numbered.index = List.range s.pushed.length
  conserved : s.queue.contents = s.unpopped
  once : (s.popped.map Numbered.index).Nodup
  known : ∀ m ∈ s.popped, m ∈ s.pushed
  inOrder : s.poppedBack = false → s.popped ++ s.queue.contents = s.pushed

variable {s s' : MsgQueueRun α}

theorem inv_initial : (initial : MsgQueueRun α).Inv := by
  constructor <;> simp [initial, unpopped, MsgQueue.empty, MsgQueue.contents]

/-- A step that moves messages between the lists. -/
theorem Inv.moved (inv : s.Inv) {queue : MsgQueue (Numbered α)}
    (h : queue.contents = s.queue.contents) : { s with queue := queue }.Inv where
  numbered := inv.numbered
  conserved := h.trans inv.conserved
  once := inv.once
  known := inv.known
  inOrder hfront := by
    show s.popped ++ queue.contents = s.pushed
    rw [h]
    exact inv.inOrder hfront

theorem Inv.index_lt (inv : s.Inv) {m : Numbered α} (hm : m ∈ s.pushed) :
    m.index < s.pushed.length := by
  have hindex := List.mem_map_of_mem (f := Numbered.index) hm
  rw [inv.numbered] at hindex
  exact List.mem_range.mp hindex

theorem Inv.push (inv : s.Inv) (value : α) :
    { s with
      queue := s.queue.push ⟨s.pushed.length, value⟩
      pushed := s.pushed ++ [(⟨s.pushed.length, value⟩ : Numbered α)] }.Inv where
  numbered := by
    simp only [List.map_append, inv.numbered, List.map_singleton, List.length_append,
      List.length_singleton, List.range_succ]
  conserved := by
    -- The number of the new message is that of no popped one.
    have hnew : s.pushed.length ∉ s.popped.map Numbered.index := by
      intro hmem
      obtain ⟨m, hm, hindex⟩ := List.mem_map.mp hmem
      have hlt := inv.index_lt (inv.known m hm)
      omega
    rw [MsgQueue.contents_push, inv.conserved]
    unfold unpopped
    rw [List.filter_append, List.filter_cons_of_pos (by simpa using hnew)]
    rfl
  once := inv.once
  known m hm := List.mem_append_left _ (inv.known m hm)
  inOrder hfront := by
    rw [MsgQueue.contents_push, ← List.append_assoc, inv.inOrder hfront]

/-- The numbers in the queue are all different. -/
theorem Inv.nodup (inv : s.Inv) : (s.queue.contents.map Numbered.index).Nodup := by
  rw [inv.conserved]
  have hsublist : (s.unpopped.map Numbered.index).Sublist (s.pushed.map Numbered.index) :=
    List.filter_sublist.map _
  refine hsublist.nodup ?_
  rw [inv.numbered]
  exact List.nodup_range

/-- Removing the message with a number from a list of different numbers. -/
theorem filter_index_ne {before after : List (Numbered α)} {m : Numbered α}
    (h : ((before ++ m :: after).map Numbered.index).Nodup) :
    ((before ++ m :: after).filter fun x => x.index ≠ m.index) = before ++ after := by
  rw [List.map_append, List.map_cons, List.nodup_append, List.nodup_cons] at h
  obtain ⟨-, ⟨hafter, -⟩, hbefore⟩ := h
  have hfirst : (before.filter fun x => x.index ≠ m.index) = before := by
    rw [List.filter_eq_self]
    intro x hx
    simpa using hbefore _ (List.mem_map_of_mem hx) _ List.mem_cons_self
  have hlast : (after.filter fun x => x.index ≠ m.index) = after := by
    rw [List.filter_eq_self]
    intro x hx
    have hne : x.index ≠ m.index := fun heq => hafter (heq ▸ List.mem_map_of_mem hx)
    simpa using hne
  rw [List.filter_append, List.filter_cons, hfirst, hlast]
  simp

/-- A message leaves the queue. -/
theorem Inv.pop (inv : s.Inv) {m : Numbered α} {queue : MsgQueue (Numbered α)}
    {before after : List (Numbered α)} {back : Bool}
    (hbefore : s.queue.contents = before ++ m :: after) (hafter : queue.contents = before ++ after)
    (hback : back = false → s.poppedBack = false ∧ before = []) :
    { s with queue := queue, popped := s.popped ++ [m], poppedBack := back }.Inv := by
  have hmem : m ∈ s.unpopped := by
    rw [← inv.conserved, hbefore]
    simp
  obtain ⟨hpushed, hnot⟩ := List.mem_filter.mp hmem
  have hnot : m.index ∉ s.popped.map Numbered.index := by simpa using hnot
  refine ⟨inv.numbered, ?_, ?_, ?_, ?_⟩
  · have hnodup := inv.nodup
    rw [hbefore] at hnodup
    have hpredicate : ∀ x : Numbered α, (x.index ∉ (s.popped ++ [m]).map Numbered.index) ↔
        x.index ≠ m.index ∧ x.index ∉ s.popped.map Numbered.index := by
      intro x
      rw [List.map_append, List.mem_append, List.map_singleton, List.mem_singleton, not_or, and_comm]
    -- Taking a message out is the same as not counting its number any more.
    calc queue.contents = (s.queue.contents.filter fun x => x.index ≠ m.index) := by
          rw [hafter, hbefore, filter_index_ne hnodup]
      _ = (s.unpopped.filter fun x => x.index ≠ m.index) := by rw [inv.conserved]
      _ = s.pushed.filter fun x => x.index ∉ (s.popped ++ [m]).map Numbered.index := by
          rw [unpopped, List.filter_filter]
          refine List.filter_congr fun x _ => ?_
          rw [← Bool.decide_and, decide_eq_decide]
          exact (hpredicate x).symm
  · show ((s.popped ++ [m]).map Numbered.index).Nodup
    rw [List.map_append, List.nodup_append]
    refine ⟨inv.once, by simp, ?_⟩
    rintro a ha b hb rfl
    have heq : a = m.index := by simpa using hb
    exact hnot (heq ▸ ha)
  · intro x hx
    rcases List.mem_append.mp hx with hold | hnew
    · exact inv.known x hold
    · rw [List.mem_singleton.mp hnew]
      exact hpushed
  · intro hfalse
    obtain ⟨hfront, rfl⟩ := hback hfalse
    show s.popped ++ [m] ++ queue.contents = s.pushed
    have horder := inv.inOrder hfront
    rw [hbefore] at horder
    rw [hafter, List.append_assoc]
    exact horder

theorem Inv.next (inv : s.Inv) {action : MsgQueueAction α} (h : s.next action = some s') :
    s'.Inv := by
  cases action with
  | push value =>
      simp only [MsgQueueRun.next, Option.ite_none_right_eq_some, Option.some.injEq] at h
      obtain ⟨-, rfl⟩ := h
      exact inv.push value
  | trySyncWrite =>
      simp only [MsgQueueRun.next, Option.ite_none_right_eq_some, Option.some.injEq] at h
      obtain ⟨-, rfl⟩ := h
      exact inv.moved rfl
  | forceSyncWrite =>
      simp only [MsgQueueRun.next, Option.ite_none_right_eq_some, Option.some.injEq] at h
      obtain ⟨-, rfl⟩ := h
      refine inv.moved ?_
      unfold MsgQueue.forceSyncWrite
      split <;> rfl
  | writer =>
      obtain ⟨queue, hqueue, rfl⟩ := Option.map_eq_some_iff.mp h
      exact inv.moved (MsgQueue.contents_writerStep hqueue)
  | popFront =>
      simp only [MsgQueueRun.next, Option.ite_none_right_eq_some] at h
      obtain ⟨⟨m, queue⟩, hpop, rfl⟩ := Option.map_eq_some_iff.mp h.2
      have hcontents : s.queue.contents = [] ++ m :: queue.contents :=
        MsgQueue.contents_popFront hpop
      exact inv.pop hcontents rfl fun hfront => ⟨hfront, rfl⟩
  | popBack =>
      simp only [MsgQueueRun.next, Option.ite_none_right_eq_some] at h
      obtain ⟨⟨m, queue⟩, hpop, rfl⟩ := Option.map_eq_some_iff.mp h.2
      obtain ⟨before, after, hbefore, hafter⟩ := MsgQueue.contents_popBack hpop
      exact inv.pop hbefore hafter fun hfalse => by cases hfalse
  | syncRead =>
      simp only [MsgQueueRun.next, Option.ite_none_right_eq_some, Option.some.injEq] at h
      obtain ⟨-, rfl⟩ := h
      refine inv.moved ?_
      unfold MsgQueue.syncRead
      split <;> rfl
  | reader =>
      simp only [MsgQueueRun.next, Option.ite_none_right_eq_some, Option.some.injEq] at h
      obtain ⟨-, rfl⟩ := h
      exact inv.moved (MsgQueue.contents_syncReadLocked s.queue)

theorem inv_of_reachable (h : (system α).Reachable s) : s.Inv :=
  h.invariant (fun _ hinit => hinit ▸ inv_initial) fun _ _ _ _ inv hnext => inv.next hnext

/-- **Conservation and order.**  The three lists in a row are the pushed messages in
push order, without exactly those that were popped, each of them once; `popFront`
returns the oldest message that was not popped; and a reader that pops from the front
only has received a prefix of the pushed sequence, of which the queue holds the rest. -/
theorem msg_queue_conservation (h : (system α).Reachable s) :
    s.queue.mReadList ++ s.queue.mSharedList ++ s.queue.mWriteList = s.unpopped ∧
    (s.popped.map Numbered.index).Nodup ∧ (∀ m ∈ s.popped, m ∈ s.pushed) ∧
    s.pushed.map Numbered.index = List.range s.pushed.length ∧
    (∀ m queue, s.queue.popFront = some (m, queue) → s.unpopped.head? = some m) ∧
    (s.poppedBack = false → s.popped ++ s.unpopped = s.pushed) := by
  have inv := inv_of_reachable h
  refine ⟨inv.conserved, inv.once, inv.known, inv.numbered, ?_, ?_⟩
  · intro m queue hpop
    rw [← inv.conserved, MsgQueue.contents_popFront hpop]
    rfl
  · intro hfront
    rw [← inv.conserved]
    exact inv.inOrder hfront

/-- Three messages, of which the last two are spliced behind the first while the reader
has not come, and one is read. -/
def threeMessages : List (MsgQueueAction Char) :=
  [.push 'a', .trySyncWrite, .writer, .writer, .push 'b', .push 'c', .forceSyncWrite, .writer,
    .writer, .syncRead, .reader, .popFront]

theorem msg_queue_conservation_three_messages :
    let s : MsgQueueRun Char :=
      { queue := ⟨[], [], [⟨1, 'b'⟩, ⟨2, 'c'⟩], .idle, .idle⟩
        pushed := [⟨0, 'a'⟩, ⟨1, 'b'⟩, ⟨2, 'c'⟩]
        popped := [⟨0, 'a'⟩]
        poppedBack := false }
    (system Char).Reachable s ∧ s.popped ++ s.unpopped = s.pushed := by
  intro s
  have hrun : (system Char).run initial threeMessages = some s := by decide
  have hreach := System.reachable_of_run rfl hrun
  exact ⟨hreach, (msg_queue_conservation hreach).2.2.2.2.2 rfl⟩

end MsgQueueRun

end Brynet
