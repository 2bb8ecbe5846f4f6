import Brynet.Lib.Transition
import Mathlib.Data.List.Basic

/-!
# `WaitGroup`

A counter with a condition variable.  `done` decrements and notifies without the
mutex, so the decrement, `notify_all`, the test of the predicate in `wait` and the
(atomic) release of the mutex with going to sleep are steps of their own.  Any
number of threads interleaves them; a thread may also wake up without reason.

Between the test and the sleep a thread holds the mutex, but `done` does not ask
for it: a notification in that window reaches nobody, and the thread then sleeps
with the counter at zero (`lost_wakeup`).  The other way to lose a wakeup is `add`
with a negative argument, which does not notify at all.  `Orderly` excludes exactly
these steps.
-/

namespace Brynet

open Transition

/-- Where a thread is in `done` or `wait`: `notify` is `done` after its decrement,
`sleeping` is `wait` after the predicate was found false, `woken` is a thread that
was woken up and has to lock the mutex again. -/
inductive WaitPc
  | idle
  | notify
  | testing
  | sleeping
  | asleep
  | woken
deriving Repr, DecidableEq

/-- The members and where each thread is.  `mMutex` is the thread that holds it. -/
structure WaitGroup where
  mCounter : Int32
  mMutex : Option ℕ
  threads : List WaitPc
deriving DecidableEq

/-- A step of a thread. -/
inductive WaitAction
  | add (t : ℕ) (i : Int32)
  | done (t : ℕ)
  | notifyAll (t : ℕ)
  | wait (t : ℕ)
  | test (t : ℕ)
  | sleep (t : ℕ)
  | wake (t : ℕ)
  | relock (t : ℕ)
deriving DecidableEq

namespace WaitGroup

/-- Thread `t` goes on at `pc`. -/
def goto (s : WaitGroup) (t : ℕ) (pc : WaitPc) : WaitGroup :=
  { s with threads := s.threads.set t pc }

/-- A step of thread `t`, which is at `pc` before it. -/
def threadNext (s : WaitGroup) (t : ℕ) (pc : WaitPc) (after : WaitGroup) : Option WaitGroup :=
  if s.threads[t]? = some pc then some after else none

/-- `notify_all` wakes every thread that is asleep. -/
def wakeAll (threads : List WaitPc) : List WaitPc :=
  threads.map fun pc => if pc = .asleep then .woken else pc

def next (s : WaitGroup) : WaitAction → Option WaitGroup
  | .add t i => s.threadNext t .idle { s with mCounter := s.mCounter + i }
  | .done t => s.threadNext t .idle { s.goto t .notify with mCounter := s.mCounter - 1 }
  | .notifyAll t =>
      s.threadNext t .notify { s with threads := wakeAll (s.threads.set t .idle) }
  | .wait t =>
      if s.mMutex = none then s.threadNext t .idle { s.goto t .testing with mMutex := some t }
      else none
  | .test t =>
      s.threadNext t .testing
        (if s.mCounter ≤ 0 then { s.goto t .idle with mMutex := none } else s.goto t .sleeping)
  | .sleep t => s.threadNext t .sleeping { s.goto t .asleep with mMutex := none }
  | .wake t => s.threadNext t .asleep (s.goto t .woken)
  | .relock t =>
      if s.mMutex = none then s.threadNext t .woken { s.goto t .testing with mMutex := some t }
      else none

/-- Any number of threads, none of them inside a method, and the counter at zero. -/
def system : System WaitGroup WaitAction where
  init s := s.mCounter = 0 ∧ s.mMutex = none ∧ ∀ pc ∈ s.threads, pc = .idle
  next := next

/-- The counter is at zero or below, no `done` is under way, and a thread sleeps. -/
def Lost (s : WaitGroup) : Prop :=
  s.mCounter ≤ 0 ∧ .notify ∉ s.threads ∧ .asleep ∈ s.threads

/-- One thread finds the counter at 1, the other then calls `done` as a whole, and the
first one goes to sleep. -/
theorem lost_wakeup : ∃ s, system.Reachable s ∧ s.Lost := by
  refine ⟨⟨0, none, [.idle, .asleep]⟩, ?_, by decide, by decide, by decide⟩
  refine @System.reachable_of_run _ _ system ⟨0, none, [.idle, .idle]⟩ _ ⟨rfl, rfl, by simp⟩
    [.add 0 1, .wait 1, .test 1, .done 0, .notifyAll 0, .sleep 1] ?_
  decide

/-! ## Without the race -/

/-- A thread has decided to sleep, or does. -/
def Waits (s : WaitGroup) : Prop := .sleeping ∈ s.threads ∨ .asleep ∈ s.threads

instance (s : WaitGroup) : Decidable s.Waits := inferInstanceAs (Decidable (_ ∨ _))

/-- The step is none of the two that lose a wakeup: the last notification while the
counter is at zero or below and a thread is between its test and its sleep, or an `add`
that takes the counter to zero or below while a thread waits and no notification is
ahead. -/
def Orderly (s : WaitGroup) : WaitAction → Bool
  | .notifyAll t => !(s.mCounter ≤ 0 && .sleeping ∈ s.threads && .notify ∉ s.threads.set t .idle)
  | .add _ i => !(0 < s.mCounter && s.mCounter + i ≤ 0 && s.Waits && .notify ∉ s.threads)
  | _ => true

/-- Whoever waits is answered for: the counter is positive or a notification is
ahead. -/
def Inv (s : WaitGroup) : Prop := s.Waits → 0 < s.mCounter ∨ .notify ∈ s.threads

variable {s s' after : WaitGroup} {t : ℕ}

theorem eq_of_threadNext {pc : WaitPc} (h : s.threadNext t pc after = some s') :
    s.threads[t]? = some pc ∧ s' = after := by
  simp only [threadNext, Option.ite_none_right_eq_some, Option.some.injEq] at h
  exact ⟨h.1, h.2.symm⟩

/-- A thread elsewhere stays where it is. -/
theorem mem_set_of_ne {threads : List WaitPc} {pc x y : WaitPc} (ht : threads[t]? = some pc)
    (hx : x ∈ threads) (hne : x ≠ pc) : x ∈ threads.set t y := by
  obtain ⟨u, hu⟩ := List.mem_iff_getElem?.mp hx
  have htu : t ≠ u := by
    rintro rfl
    exact hne (Option.some.inj (hu.symm.trans ht))
  exact List.mem_iff_getElem?.mpr ⟨u, by rw [List.getElem?_set_ne htu, hu]⟩

/-- A step that neither touches the counter nor takes a notification away, and lets
nobody wait who did not. -/
theorem Inv.goto (inv : s.Inv) {pc new : WaitPc} (ht : s.threads[t]? = some pc)
    (hpc : pc ≠ .notify) (hnew : (new ≠ .sleeping ∧ new ≠ .asleep) ∨ pc = .sleeping)
    (mutex : Option ℕ) : { s.goto t new with mMutex := mutex }.Inv := by
  intro hwaits
  have hbefore : s.Waits := by
    rcases hnew with ⟨hsleeping, hasleep⟩ | hsleeping
    · rcases hwaits with h | h
      · exact .inl ((List.mem_or_eq_of_mem_set h).resolve_right hsleeping.symm)
      · exact .inr ((List.mem_or_eq_of_mem_set h).resolve_right hasleep.symm)
    · exact .inl (hsleeping ▸ List.mem_of_getElem? ht)
  exact (inv hbefore).imp_right fun hnotify => mem_set_of_ne ht hnotify hpc.symm

theorem Inv.add (inv : s.Inv) {i : Int32} (hok : s.Orderly (.add t i) = true) :
    { s with mCounter := s.mCounter + i }.Inv := by
  intro hwaits
  have hwaits : s.Waits := hwaits
  rcases inv hwaits with hpos | hnotify
  · by_cases hnotify : .notify ∈ s.threads
    · exact .inr hnotify
    · simp only [Orderly, hwaits, hnotify, hpos] at hok
      exact .inl (by simpa using hok)
  · exact .inr hnotify

theorem mem_wakeAll {threads : List WaitPc} {pc : WaitPc} (hasleep : pc ≠ .asleep)
    (hwoken : pc ≠ .woken) : pc ∈ wakeAll threads ↔ pc ∈ threads := by
  unfold wakeAll
  rw [List.mem_map]
  constructor
  · rintro ⟨x, hx, heq⟩
    split at heq
    · exact absurd heq.symm hwoken
    · exact heq ▸ hx
  · exact fun hpc => ⟨pc, hpc, if_neg hasleep⟩

theorem asleep_not_mem_wakeAll (threads : List WaitPc) : .asleep ∉ wakeAll threads := by
  unfold wakeAll
  rw [List.mem_map]
  rintro ⟨x, -, heq⟩
  split at heq
  · cases heq
  · rename_i hne
    exact hne heq

/-- A notification wakes whoever is asleep; a thread between its test and its sleep is
left to the counter or to another notification. -/
theorem Inv.notifyAll (hok : s.Orderly (.notifyAll t) = true) :
    { s with threads := wakeAll (s.threads.set t .idle) }.Inv := by
  rintro (hsleeping | hasleep)
  · have hbefore : .sleeping ∈ s.threads :=
      (List.mem_or_eq_of_mem_set ((mem_wakeAll (by decide) (by decide)).mp hsleeping)).resolve_right
        (by decide)
    by_cases hpos : s.mCounter ≤ 0
    · simp only [Orderly, hpos, hbefore, decide_true, Bool.and_self, Bool.true_and,
        Bool.not_eq_true', decide_eq_false_iff_not, not_not] at hok
      exact .inr ((mem_wakeAll (by decide) (by decide)).mpr hok)
    · exact .inl (Int32.not_le.mp hpos)
  · exact absurd hasleep (asleep_not_mem_wakeAll _)

theorem Inv.next (inv : s.Inv) {action : WaitAction} (hok : s.Orderly action = true)
    (h : s.next action = some s') : s'.Inv := by
  cases action with
  | add t i =>
      obtain ⟨-, rfl⟩ := eq_of_threadNext h
      exact inv.add hok
  | done t =>
      obtain ⟨ht, rfl⟩ := eq_of_threadNext h
      have hlt : t < s.threads.length := (List.getElem?_eq_some_iff.mp ht).1
      exact fun _ => .inr (List.mem_set hlt .notify)
  | notifyAll t =>
      obtain ⟨-, rfl⟩ := eq_of_threadNext h
      exact Inv.notifyAll hok
  | wait t =>
      simp only [WaitGroup.next, Option.ite_none_right_eq_some] at h
      obtain ⟨ht, rfl⟩ := eq_of_threadNext h.2
      exact inv.goto ht (by decide) (.inl (by decide)) _
  | test t =>
      obtain ⟨ht, rfl⟩ := eq_of_threadNext h
      split
      · exact inv.goto ht (by decide) (.inl (by decide)) _
      · rename_i hpos
        exact fun _ => .inl (Int32.not_le.mp hpos)
  | sleep t =>
      obtain ⟨ht, rfl⟩ := eq_of_threadNext h
      exact inv.goto ht (by decide) (.inr rfl) _
  | wake t =>
      obtain ⟨ht, rfl⟩ := eq_of_threadNext h
      exact inv.goto ht (by decide) (.inl (by decide)) s.mMutex
  | relock t =>
      simp only [WaitGroup.next, Option.ite_none_right_eq_some] at h
      obtain ⟨ht, rfl⟩ := eq_of_threadNext h.2
      exact inv.goto ht (by decide) (.inl (by decide)) _

theorem inv_of_reachable (h : (system.restrict Orderly).Reachable s) : s.Inv := by
  refine h.invariant (fun s hinit => ?_) fun _ _ _ _ inv hnext => ?_
  · rintro (hsleeping | hasleep)
    · exact absurd (hinit.2.2 _ hsleeping) (by decide)
    · exact absurd (hinit.2.2 _ hasleep) (by decide)
  · obtain ⟨hok, hnext⟩ := System.next_of_restrict hnext
    exact inv.next hok hnext

/-- A thread that is left to itself goes to sleep. -/
theorem lost_of_sleeping (hcounter : s.mCounter ≤ 0) (hnotify : .notify ∉ s.threads)
    (hsleeping : .sleeping ∈ s.threads) : ∃ u s', s.next (.sleep u) = some s' ∧ s'.Lost := by
  obtain ⟨u, hu⟩ := List.mem_iff_getElem?.mp hsleeping
  refine ⟨u, { s.goto u .asleep with mMutex := none }, if_pos hu, hcounter, ?_, ?_⟩
  · exact fun hmem => hnotify ((List.mem_or_eq_of_mem_set hmem).resolve_right (by decide))
  · exact List.mem_set (List.getElem?_eq_some_iff.mp hu).1 _

/-- Every other step loses a wakeup, at once or when the thread in the window sleeps. -/
theorem lost_of_not_orderly {action : WaitAction} (hok : s.Orderly action = false)
    (h : s.next action = some s') :
    s'.Lost ∨ ∃ u s'', s'.next (.sleep u) = some s'' ∧ s''.Lost := by
  cases action with
  | add t i =>
      obtain ⟨-, rfl⟩ := eq_of_threadNext h
      simp only [Orderly, Bool.not_eq_false', Bool.and_eq_true, decide_eq_true_eq] at hok
      obtain ⟨⟨⟨-, hcounter⟩, hwaits⟩, hnotify⟩ := hok
      rcases hwaits with hsleeping | hasleep
      · exact .inr (lost_of_sleeping hcounter hnotify hsleeping)
      · exact .inl ⟨hcounter, hnotify, hasleep⟩
  | notifyAll t =>
      obtain ⟨ht, rfl⟩ := eq_of_threadNext h
      simp only [Orderly, Bool.not_eq_false', Bool.and_eq_true, decide_eq_true_eq] at hok
      obtain ⟨⟨hcounter, hsleeping⟩, hnotify⟩ := hok
      refine .inr (lost_of_sleeping hcounter ?_ ?_)
      · exact fun hmem => hnotify ((mem_wakeAll (by decide) (by decide)).mp hmem)
      · exact (mem_wakeAll (by decide) (by decide)).mpr (mem_set_of_ne ht hsleeping (by decide))
  | _ => cases hok

/-- **When no wakeup is lost.**  In a run of orderly steps no thread is left asleep, and
every step that is not orderly leaves one asleep or about to be. -/
theorem wait_group_orderly (s : WaitGroup) :
    ((system.restrict Orderly).Reachable s → ¬s.Lost) ∧
    ∀ s' a, s.next a = some s' → s.Orderly a = false →
      s'.Lost ∨ ∃ u s'', s'.next (.sleep u) = some s'' ∧ s''.Lost := by
  refine ⟨fun hreach hlost => ?_, fun s' a hnext hok => lost_of_not_orderly hok hnext⟩
  obtain ⟨hcounter, hnotify, hasleep⟩ := hlost
  rcases inv_of_reachable hreach (.inr hasleep) with hpos | hmem
  · exact Int32.not_le.mpr hpos hcounter
  · exact hnotify hmem

/-- A thread waits, falls asleep and is woken by the one `done`. -/
theorem wait_group_orderly_one_done :
    (system.restrict Orderly).Reachable ⟨0, none, [.idle, .woken]⟩ ∧
      ¬Lost ⟨0, none, [.idle, .woken]⟩ := by
  have hreach : (system.restrict Orderly).Reachable ⟨0, none, [.idle, .woken]⟩ := by
    refine @System.reachable_of_run _ _ (system.restrict Orderly) ⟨0, none, [.idle, .idle]⟩ _
      ⟨rfl, rfl, by simp⟩ [.add 0 1, .wait 1, .test 1, .sleep 1, .done 0, .notifyAll 0] ?_
    decide
  exact ⟨hreach, (wait_group_orderly _).1 hreach⟩

end WaitGroup

end Brynet
