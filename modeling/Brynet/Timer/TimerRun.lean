import Brynet.Timer.Timer

/-!
# Timers are called once, when they are due

First the books, which need no arithmetic: an active timer in the manager is one that no
event of the log speaks against, so a call is recorded once, and not after the timer was
cancelled or cleared.  Then the times.  As long as no difference of times leaves
`int64_t`, the queue is ordered by deadlines and `getLeftTime` is the deadline less the
clock; a timeout far in the past is enough to break this.
-/

namespace Brynet

open MachineInt Transition

/-- Whether this event is a reason not to have the later one, a call. -/
def TimerEvent.bars : TimerEvent → TimerEvent → Bool
  | .cancelled id, .called other _ => other = id
  | .cleared ids, .called other _ => other ∈ ids
  | .called id _, .called other _ => other = id
  | _, _ => false

namespace TimerMgr

variable {s s' : TimerMgr} {a : TimerAction} {t tmp : Timer}

/-! ## What a step can be -/

inductive Moves (s : TimerMgr) : TimerAction → TimerMgr → Prop
  | addTimer (now timeout : ℤ) : Moves s (.addTimer now timeout) (s.addTimer now timeout)
  | cancel (id : ℕ) (hid : id < s.created) : Moves s (.cancel id) (s.cancel id)
  | clear : Moves s .clear s.clear
  | schedule : Moves s .schedule s.schedule
  | wait (now : ℤ) (tmp : Timer) (htop : s.isTop tmp = true) (hleft : 0 < tmp.getLeftTime now) :
      Moves s (.turn now tmp.id) { s with clock := now, phase := .idle }
  | pop (now : ℤ) (tmp : Timer) (htop : s.isTop tmp = true) (hleft : tmp.getLeftTime now ≤ 0) :
      Moves s (.turn now tmp.id) (({ s with clock := now }.pop tmp).call tmp)
  | finish (hempty : s.mTimers = []) : Moves s .finish { s with phase := .idle }
  | callbackReturn : Moves s .callbackReturn { s with phase := .loop }

theorem moves_of_next (h : system.next s a = some s') : s.Moves a s' := by
  cases a with
  | addTimer now timeout =>
      obtain ⟨-, ⟨⟩⟩ := Option.ite_none_right_eq_some.mp h
      exact .addTimer now timeout
  | cancel id =>
      obtain ⟨hguard, ⟨⟩⟩ := Option.ite_none_right_eq_some.mp h
      exact .cancel id (of_decide_eq_true (Bool.and_eq_true_iff.mp hguard).2)
  | clear =>
      obtain ⟨-, ⟨⟩⟩ := Option.ite_none_right_eq_some.mp h
      exact .clear
  | schedule =>
      obtain ⟨-, ⟨⟩⟩ := Option.ite_none_right_eq_some.mp h
      exact .schedule
  | turn now top =>
      obtain ⟨-, hturn⟩ := Option.ite_none_right_eq_some.mp h
      obtain ⟨tmp, hfind, rfl⟩ := Option.map_eq_some_iff.mp hturn
      have hfound := List.find?_some hfind
      simp only [Bool.and_eq_true, decide_eq_true_eq] at hfound
      obtain ⟨rfl, htop⟩ := hfound
      unfold TimerMgr.turn
      by_cases hleft : 0 < tmp.getLeftTime now
      · rw [if_pos hleft]
        exact .wait now tmp htop hleft
      · rw [if_neg hleft]
        exact .pop now tmp htop (not_lt.mp hleft)
  | finish =>
      obtain ⟨hguard, ⟨⟩⟩ := Option.ite_none_right_eq_some.mp h
      exact .finish (List.isEmpty_iff.mp (Bool.and_eq_true_iff.mp hguard).2)
  | callbackReturn =>
      obtain ⟨-, ⟨⟩⟩ := Option.ite_none_right_eq_some.mp h
      exact .callbackReturn

/-! ## The books -/

structure Books (s : TimerMgr) : Prop where
  ids_nodup : s.ids.Nodup
  ids_lt : ∀ t ∈ s.mTimers, t.id < s.created
  added : ∀ t ∈ s.mTimers, .added t.id t.mStartTime t.mLastTime ∈ s.log
  /-- No event speaks against the call of an active timer. -/
  clean : ∀ t ∈ s.mTimers, t.mActive = true → ∀ e ∈ s.log, ∀ now,
    e.bars (.called t.id now) = false
  /-- Events are about timers that have been made. -/
  known : ∀ e ∈ s.log, ∀ id now, e.bars (.called id now) = true → id < s.created
  unbarred : s.log.Pairwise fun e later => e.bars later = false

theorem books_start (clock : ℤ) : (start clock).Books where
  ids_nodup := List.nodup_nil
  ids_lt := by simp [start]
  added := by simp [start]
  clean := by simp [start]
  known := by simp [start]
  unbarred := List.Pairwise.nil

/-- Every timer of `s'` is one of `s`, and at most as active. -/
def Within (s' s : TimerMgr) : Prop :=
  ∀ t' ∈ s'.mTimers, ∃ t ∈ s.mTimers, t'.id = t.id ∧ t'.mStartTime = t.mStartTime ∧
    t'.mLastTime = t.mLastTime ∧ (t'.mActive = true → t.mActive = true)

theorem within_of_subset (h : s'.mTimers ⊆ s.mTimers) : s'.Within s := by
  intro t ht
  exact ⟨t, h ht, rfl, rfl, rfl, fun hactive => hactive⟩

/-- Steps that take timers away. -/
theorem Books.of_within (h : s.Books) (hwithin : s'.Within s) (hnodup : s'.ids.Nodup)
    (hcreated : s'.created = s.created) (hlog : s'.log = s.log) : s'.Books where
  ids_nodup := hnodup
  ids_lt := by
    intro t' ht'
    obtain ⟨t, ht, hid, -⟩ := hwithin t' ht'
    rw [hid, hcreated]
    exact h.ids_lt t ht
  added := by
    intro t' ht'
    obtain ⟨t, ht, hid, hstart, hlast, -⟩ := hwithin t' ht'
    rw [hid, hstart, hlast, hlog]
    exact h.added t ht
  clean := by
    intro t' ht' hactive
    obtain ⟨t, ht, hid, -, -, himp⟩ := hwithin t' ht'
    rw [hid, hlog]
    exact h.clean t ht (himp hactive)
  known := by
    rw [hcreated, hlog]
    exact h.known
  unbarred := hlog ▸ h.unbarred

/-- Steps that touch neither the timers nor the log. -/
theorem Books.of_eq (h : s.Books) (htimers : s'.mTimers = s.mTimers)
    (hcreated : s'.created = s.created) (hlog : s'.log = s.log) : s'.Books := by
  refine h.of_within (within_of_subset (htimers ▸ List.Subset.refl _)) ?_ hcreated hlog
  rw [ids, htimers]
  exact h.ids_nodup

/-- An event that bars no active timer, and is not barred. -/
theorem Books.record (h : s.Books) {e : TimerEvent}
    (hclean : ∀ t ∈ s.mTimers, t.mActive = true → ∀ now, e.bars (.called t.id now) = false)
    (hknown : ∀ id now, e.bars (.called id now) = true → id < s.created)
    (hlast : ∀ earlier ∈ s.log, earlier.bars e = false) : (s.record e).Books where
  ids_nodup := h.ids_nodup
  ids_lt := h.ids_lt
  added t ht := List.mem_append_left _ (h.added t ht)
  clean := by
    intro t ht hactive e' he' now
    obtain hold | hnew := List.mem_append.mp he'
    · exact h.clean t ht hactive e' hold now
    · rw [List.mem_singleton.mp hnew]
      exact hclean t ht hactive now
  known := by
    intro e' he' id now hbars
    obtain hold | hnew := List.mem_append.mp he'
    · exact h.known e' hold id now hbars
    · rw [List.mem_singleton.mp hnew] at hbars
      exact hknown id now hbars
  unbarred := by
    refine List.pairwise_append.mpr ⟨h.unbarred, List.pairwise_singleton _ _, ?_⟩
    intro earlier hearlier e' he'
    rw [List.mem_singleton.mp he']
    exact hlast earlier hearlier

/-- Only a call is barred. -/
theorem bars_eq_false {e later : TimerEvent} (h : ∀ id now, later ≠ .called id now) :
    e.bars later = false := by
  cases later with
  | called id now => exact absurd rfl (h id now)
  | added id start timeout => cases e <;> rfl
  | cancelled id => cases e <;> rfl
  | cleared ids => cases e <;> rfl

theorem Books.addTimer (h : s.Books) (now timeout : ℤ) : (s.addTimer now timeout).Books := by
  have hrecord : (s.record (.added s.created now timeout)).Books := by
    refine h.record (fun _ _ _ _ => rfl) ?_ fun e _ => bars_eq_false (by simp)
    intro id now' hbars
    cases hbars
  have hfresh : s.created ∉ s.ids := by
    intro hmem
    obtain ⟨t, ht, heq⟩ := List.mem_map.mp hmem
    exact absurd (h.ids_lt t ht) (by omega)
  have hknown : ∀ e ∈ (s.record (.added s.created now timeout)).log, ∀ id now',
      e.bars (.called id now') = true → id < s.created := hrecord.known
  refine ⟨List.nodup_cons.mpr ⟨hfresh, h.ids_nodup⟩, ?_, ?_, ?_, ?_, hrecord.unbarred⟩
  · intro t ht
    obtain rfl | ht := List.mem_cons.mp ht
    · exact Nat.lt_succ_self _
    · exact Nat.lt_succ_of_lt (h.ids_lt t ht)
  · intro t ht
    obtain rfl | ht := List.mem_cons.mp ht
    · exact List.mem_append_right _ List.mem_cons_self
    · exact hrecord.added t ht
  · intro t ht hactive e he now'
    obtain rfl | ht := List.mem_cons.mp ht
    · by_contra hbars
      exact absurd (hknown e he s.created now' (Bool.eq_true_of_not_eq_false hbars))
        (Nat.lt_irrefl _)
    · exact hrecord.clean t ht hactive e he now'
  · intro e he id now' hbars
    exact Nat.lt_succ_of_lt (hknown e he id now' hbars)

theorem ids_map_cancelBy (timers : List Timer) (id : ℕ) :
    (timers.map (Timer.cancelBy id)).map Timer.id = timers.map Timer.id := by
  rw [List.map_map]
  apply List.map_congr_left
  intro t _
  simp only [Function.comp, Timer.cancelBy]
  split <;> rfl

theorem within_cancel (s : TimerMgr) (id : ℕ) : (s.cancel id).Within s := by
  intro t' ht'
  obtain ⟨t, ht, rfl⟩ := List.mem_map.mp ht'
  refine ⟨t, ht, ?_⟩
  unfold Timer.cancelBy
  split
  · exact ⟨rfl, rfl, rfl, fun hactive => by cases hactive⟩
  · exact ⟨rfl, rfl, rfl, fun hactive => hactive⟩

theorem Books.cancel (h : s.Books) {id : ℕ} (hid : id < s.created) : (s.cancel id).Books := by
  have htimers : { s with mTimers := s.mTimers.map (Timer.cancelBy id) }.Books := by
    refine h.of_within (within_cancel s id) ?_ rfl rfl
    rw [ids, ids_map_cancelBy]
    exact h.ids_nodup
  refine htimers.record ?_ ?_ fun e _ => bars_eq_false (by simp)
  · intro t ht hactive now
    obtain ⟨t, -, rfl⟩ := List.mem_map.mp ht
    by_cases heq : t.id = id
    · simp [Timer.cancelBy, heq, Timer.cancel] at hactive
    · simp [Timer.cancelBy, heq, TimerEvent.bars]
  · intro other now hbars
    simp only [TimerEvent.bars, decide_eq_true_eq] at hbars
    exact hbars ▸ hid

theorem Books.clear (h : s.Books) : s.clear.Books := by
  have htimers : { s with mTimers := [] }.Books :=
    h.of_within (within_of_subset (List.nil_subset _)) List.nodup_nil rfl rfl
  refine htimers.record (fun t ht => by cases ht) ?_ fun e _ => bars_eq_false (by simp)
  intro id now hbars
  simp only [TimerEvent.bars, decide_eq_true_eq] at hbars
  obtain ⟨t, ht, rfl⟩ := List.mem_map.mp hbars
  exact h.ids_lt t ht

theorem Books.pop (h : s.Books) (tmp : Timer) : (s.pop tmp).Books := by
  refine h.of_within (within_of_subset List.filter_sublist.subset) ?_ rfl rfl
  exact h.ids_nodup.sublist (List.Sublist.map _ List.filter_sublist)

theorem Books.call (h : s.Books) (htmp : tmp ∈ s.mTimers) :
    ((s.pop tmp).call tmp).Books := by
  unfold TimerMgr.call
  by_cases hactive : tmp.mActive = true
  · rw [if_pos hactive]
    have hpop : { s.pop tmp with phase := .callback }.Books := (h.pop tmp).of_eq rfl rfl rfl
    refine hpop.record ?_ ?_ ?_
    · intro t ht _ now
      have hne : t.id ≠ tmp.id := by simpa using (List.mem_filter.mp ht).2
      simpa [TimerEvent.bars] using hne
    · intro id now hbars
      simp only [TimerEvent.bars, decide_eq_true_eq] at hbars
      exact hbars ▸ h.ids_lt tmp htmp
    · intro e he
      exact h.clean tmp htmp hactive e he _
  · rw [if_neg hactive]
    exact h.pop tmp

theorem mem_of_isTop (h : s.isTop tmp = true) : tmp ∈ s.mTimers :=
  of_decide_eq_true (Bool.and_eq_true_iff.mp h).1

theorem Books.next (h : s.Books) (hnext : system.next s a = some s') : s'.Books := by
  cases moves_of_next hnext with
  | addTimer now timeout => exact h.addTimer now timeout
  | cancel id hid => exact h.cancel hid
  | clear => exact h.clear
  | schedule => exact h.of_eq rfl rfl rfl
  | wait now tmp htop hleft => exact h.of_eq rfl rfl rfl
  | pop now tmp htop hleft =>
      have hclock : { s with clock := now }.Books := h.of_eq rfl rfl rfl
      exact hclock.call (mem_of_isTop htop)
  | finish hempty => exact h.of_eq rfl rfl rfl
  | callbackReturn => exact h.of_eq rfl rfl rfl

theorem books_of_reachable (h : system.Reachable s) : s.Books := by
  refine h.invariant ?_ ?_
  · rintro s ⟨clock, -, rfl⟩
    exact books_start clock
  · intro s a s' _ hbooks hnext
    exact hbooks.next hnext

/-- A number stands for one timer. -/
structure Numbered (s : TimerMgr) : Prop where
  lt : ∀ id start timeout, .added id start timeout ∈ s.log → id < s.created
  once : ∀ id start timeout start' timeout', .added id start timeout ∈ s.log →
    .added id start' timeout' ∈ s.log → start = start' ∧ timeout = timeout'

theorem Numbered.of_eq (h : s.Numbered) (hcreated : s'.created = s.created)
    (hlog : s'.log = s.log) : s'.Numbered where
  lt := by
    rw [hlog, hcreated]
    exact h.lt
  once := by
    rw [hlog]
    exact h.once

/-- An event that makes no timer. -/
theorem Numbered.record (h : s.Numbered) {e : TimerEvent}
    (he : ∀ id start timeout, e ≠ .added id start timeout) : (s.record e).Numbered := by
  have hold : ∀ id start timeout, .added id start timeout ∈ (s.record e).log →
      .added id start timeout ∈ s.log := by
    intro id start timeout hmem
    obtain hmem | hnew := List.mem_append.mp hmem
    · exact hmem
    · exact absurd (List.mem_singleton.mp hnew).symm (he id start timeout)
  constructor
  · intro id start timeout hmem
    exact h.lt id start timeout (hold _ _ _ hmem)
  · intro id start timeout start' timeout' hmem hmem'
    exact h.once id start timeout start' timeout' (hold _ _ _ hmem) (hold _ _ _ hmem')

theorem Numbered.addTimer (h : s.Numbered) (now timeout : ℤ) :
    (s.addTimer now timeout).Numbered := by
  have hcases : ∀ id start timeout', .added id start timeout' ∈ (s.addTimer now timeout).log →
      .added id start timeout' ∈ s.log ∨ id = s.created ∧ start = now ∧ timeout' = timeout := by
    intro id start timeout' hmem
    obtain hold | hnew := List.mem_append.mp hmem
    · exact .inl hold
    · cases List.mem_singleton.mp hnew
      exact .inr ⟨rfl, rfl, rfl⟩
  constructor
  · intro id start timeout' hmem
    obtain hold | ⟨rfl, -⟩ := hcases id start timeout' hmem
    · exact Nat.lt_succ_of_lt (h.lt id start timeout' hold)
    · exact Nat.lt_succ_self _
  · intro id start timeout₁ start' timeout₂ hmem hmem'
    obtain hold | ⟨rfl, rfl, rfl⟩ := hcases id start timeout₁ hmem
    · obtain hold' | ⟨rfl, -⟩ := hcases id start' timeout₂ hmem'
      · exact h.once id start timeout₁ start' timeout₂ hold hold'
      · exact absurd (h.lt _ _ _ hold) (Nat.lt_irrefl _)
    · obtain hold' | ⟨-, rfl, rfl⟩ := hcases _ start' timeout₂ hmem'
      · exact absurd (h.lt _ _ _ hold') (Nat.lt_irrefl _)
      · exact ⟨rfl, rfl⟩

theorem Numbered.next (h : s.Numbered) (hnext : system.next s a = some s') : s'.Numbered := by
  cases moves_of_next hnext with
  | addTimer now timeout => exact h.addTimer now timeout
  | cancel id hid =>
      have htimers : { s with mTimers := s.mTimers.map (Timer.cancelBy id) }.Numbered :=
        h.of_eq rfl rfl
      exact htimers.record (by simp)
  | clear =>
      have htimers : { s with mTimers := [] }.Numbered := h.of_eq rfl rfl
      exact htimers.record (by simp)
  | schedule => exact h.of_eq rfl rfl
  | wait now tmp htop hleft => exact h.of_eq rfl rfl
  | pop now tmp htop hleft =>
      unfold TimerMgr.call
      split
      · have hpop : { { s with clock := now }.pop tmp with phase := .callback }.Numbered :=
          h.of_eq rfl rfl
        exact hpop.record (by simp)
      · exact h.of_eq rfl rfl
  | finish hempty => exact h.of_eq rfl rfl
  | callbackReturn => exact h.of_eq rfl rfl

theorem numbered_of_reachable (h : system.Reachable s) : s.Numbered := by
  refine h.invariant ?_ ?_
  · rintro s ⟨clock, -, rfl⟩
    exact ⟨by simp [start], by simp [start]⟩
  · intro s a s' _ hnumbered hnext
    exact hnumbered.next hnext

/-! ## The times -/

/-- The timers of the current or last `schedule` that were there when it began. -/
def poppedPresent (s : TimerMgr) : List Timer := s.popped.filter fun t => t.id ∈ s.present

structure Timely (s : TimerMgr) : Prop where
  /-- The queue can compare any two of its timers. -/
  ordered : ∀ t ∈ s.mTimers, ∀ u ∈ s.mTimers, comparable t u = true
  present_lt : ∀ id ∈ s.present, id < s.created
  sorted : s.poppedPresent.Pairwise fun t u => t.deadline ≤ u.deadline
  /-- What was popped is due before what is still there. -/
  ahead : ∀ t ∈ s.poppedPresent, ∀ u ∈ s.mTimers, u.id ∈ s.present → t.deadline ≤ u.deadline
  notEarly : ∀ id now, .called id now ∈ s.log →
    ∃ start timeout, .added id start timeout ∈ s.log ∧ start + timeout ≤ now

theorem compareTimer_eq {t u : Timer} (h : comparable t u = true) :
    compareTimer t u = decide (u.deadline < t.deadline) := by
  simp only [comparable, Bool.and_eq_true] at h
  obtain ⟨⟨hstart, hlast⟩, hdeadline⟩ := h
  have hsum : t.mStartTime - u.mStartTime + (t.mLastTime - u.mLastTime) =
      t.deadline - u.deadline := by
    unfold Timer.deadline
    omega
  simp only [compareTimer, int64_eq hstart, int64_eq hlast, hsum, int64_eq hdeadline]
  rw [decide_eq_decide]
  omega

theorem getLeftTime_eq {now : ℤ} (helapsed : fitsInt64 (now - t.mStartTime) = true)
    (hleft : fitsInt64 (t.mLastTime - (now - t.mStartTime)) = true) :
    t.getLeftTime now = t.deadline - now := by
  rw [Timer.getLeftTime, int64_eq helapsed, int64_eq hleft]
  unfold Timer.deadline
  omega

theorem timely_start (clock : ℤ) : (start clock).Timely where
  ordered := by simp [start]
  present_lt := by simp [start]
  sorted := by simp [start, poppedPresent]
  ahead := by simp [start]
  notEarly := by simp [start]

/-- The timer on top is due first. -/
theorem Timely.deadline_le (h : s.Timely) (htop : s.isTop tmp = true) (ht : t ∈ s.mTimers) :
    tmp.deadline ≤ t.deadline := by
  have hmax := List.all_eq_true.mp (Bool.and_eq_true_iff.mp htop).2 t ht
  rw [compareTimer_eq (h.ordered tmp (mem_of_isTop htop) t ht)] at hmax
  simpa using hmax

/-- Steps that take timers away, and record no call. -/
theorem Timely.of_within (h : s.Timely) (hwithin : s'.Within s)
    (hcreated : s'.created = s.created) (hpresent : s'.present = s.present)
    (hpopped : s'.popped = s.popped) (hlog : s.log ⊆ s'.log)
    (hcalled : ∀ id now, .called id now ∈ s'.log → .called id now ∈ s.log) : s'.Timely where
  ordered := by
    intro t' ht' u' hu'
    obtain ⟨t, ht, -, hstart, hlast, -⟩ := hwithin t' ht'
    obtain ⟨u, hu, -, hstart', hlast', -⟩ := hwithin u' hu'
    have hcomparable := h.ordered t ht u hu
    simpa only [comparable, Timer.deadline, hstart, hlast, hstart', hlast'] using hcomparable
  present_lt := by
    rw [hpresent, hcreated]
    exact h.present_lt
  sorted := by
    rw [poppedPresent, hpopped, hpresent]
    exact h.sorted
  ahead := by
    rw [poppedPresent, hpopped, hpresent]
    intro t ht u' hu' hmem
    obtain ⟨u, hu, hid, hstart, hlast, -⟩ := hwithin u' hu'
    have hle := h.ahead t ht u hu (hid ▸ hmem)
    simpa only [Timer.deadline, hstart, hlast] using hle
  notEarly := by
    intro id now hmem
    obtain ⟨start, timeout, hadded, hle⟩ := h.notEarly id now (hcalled id now hmem)
    exact ⟨start, timeout, hlog hadded, hle⟩

/-- Steps that change only where `schedule` is. -/
theorem Timely.of_eq (h : s.Timely) (htimers : s'.mTimers = s.mTimers)
    (hcreated : s'.created = s.created) (hpresent : s'.present = s.present)
    (hpopped : s'.popped = s.popped) (hlog : s'.log = s.log) : s'.Timely := by
  have hwithin : s'.Within s := within_of_subset (htimers ▸ List.Subset.refl _)
  exact h.of_within hwithin hcreated hpresent hpopped (hlog ▸ List.Subset.refl _)
    fun _ _ hmem => hlog ▸ hmem

/-- The calls in the log after an event that is none. -/
theorem called_of_mem_concat {log : List TimerEvent} {e : TimerEvent} {id : ℕ} {now : ℤ}
    (he : ∀ id now, e ≠ .called id now) (h : .called id now ∈ log ++ [e]) :
    .called id now ∈ log := by
  obtain hold | hnew := List.mem_append.mp h
  · exact hold
  · exact absurd (List.mem_singleton.mp hnew).symm (he id now)

theorem Timely.addTimer (h : s.Timely) {now timeout : ℤ}
    (hrange : s.inRange (.addTimer now timeout) = true) : (s.addTimer now timeout).Timely := by
  have hnew : ∀ t ∈ s.mTimers,
      comparable { id := s.created, mActive := true, mStartTime := now, mLastTime := timeout } t =
        true ∧
      comparable t { id := s.created, mActive := true, mStartTime := now, mLastTime := timeout } =
        true := by
    intro t ht
    exact Bool.and_eq_true_iff.mp (List.all_eq_true.mp hrange t ht)
  refine ⟨?_, ?_, h.sorted, ?_, ?_⟩
  · intro t ht u hu
    obtain rfl | ht := List.mem_cons.mp ht
    · obtain rfl | hu := List.mem_cons.mp hu
      · simp [comparable, fitsInt64]
      · exact (hnew u hu).1
    · obtain rfl | hu := List.mem_cons.mp hu
      · exact (hnew t ht).2
      · exact h.ordered t ht u hu
  · intro id hid
    exact Nat.lt_succ_of_lt (h.present_lt id hid)
  · intro t ht u hu hmem
    obtain rfl | hu := List.mem_cons.mp hu
    · -- the new timer was not there when `schedule` began
      exact absurd (h.present_lt s.created hmem) (Nat.lt_irrefl _)
    · exact h.ahead t ht u hu hmem
  · intro id now' hmem
    have hold := called_of_mem_concat (by simp) hmem
    obtain ⟨start, timeout', hadded, hle⟩ := h.notEarly id now' hold
    exact ⟨start, timeout', List.mem_append_left _ hadded, hle⟩

theorem Timely.schedule (h : s.Timely) (hbooks : s.Books) : s.schedule.Timely := by
  refine ⟨h.ordered, ?_, List.Pairwise.nil, by simp [poppedPresent, TimerMgr.schedule], h.notEarly⟩
  intro id hid
  obtain ⟨t, ht, rfl⟩ := List.mem_map.mp hid
  exact hbooks.ids_lt t ht

theorem poppedPresent_pop (s : TimerMgr) (tmp : Timer) :
    (s.pop tmp).poppedPresent =
      if tmp.id ∈ s.present then s.poppedPresent ++ [tmp] else s.poppedPresent := by
  change (s.popped ++ [tmp]).filter (fun t => t.id ∈ s.present) = _
  rw [List.filter_append]
  by_cases hmem : tmp.id ∈ s.present
  · rw [if_pos hmem, List.filter_cons_of_pos (by simpa using hmem)]
    rfl
  · rw [if_neg hmem, List.filter_cons_of_neg (by simpa using hmem)]
    simp [poppedPresent]

theorem Timely.pop (h : s.Timely) (htop : s.isTop tmp = true) : (s.pop tmp).Timely := by
  have hsub : (s.pop tmp).mTimers ⊆ s.mTimers := List.filter_sublist.subset
  refine ⟨fun t ht u hu => h.ordered t (hsub ht) u (hsub hu), h.present_lt, ?_, ?_, h.notEarly⟩
  · rw [poppedPresent_pop]
    split
    · rename_i hmem
      refine List.pairwise_append.mpr ⟨h.sorted, List.pairwise_singleton _ _, ?_⟩
      intro t ht u hu
      rw [List.mem_singleton.mp hu]
      exact h.ahead t ht tmp (mem_of_isTop htop) hmem
    · exact h.sorted
  · rw [poppedPresent_pop]
    intro t ht u hu hmem
    split at ht
    · obtain hold | hnew := List.mem_append.mp ht
      · exact h.ahead t hold u (hsub hu) hmem
      · rw [List.mem_singleton.mp hnew]
        exact h.deadline_le htop (hsub hu)
    · exact h.ahead t ht u (hsub hu) hmem

/-- A timer that is called is due. -/
theorem Timely.call (h : s.Timely) (hbooks : s.Books) (htop : s.isTop tmp = true)
    (hdue : tmp.deadline ≤ s.clock) : ((s.pop tmp).call tmp).Timely := by
  have hpop := h.pop htop
  unfold TimerMgr.call
  by_cases hactive : tmp.mActive = true
  · rw [if_pos hactive]
    refine ⟨hpop.ordered, hpop.present_lt, hpop.sorted, hpop.ahead, ?_⟩
    intro id now hmem
    obtain hold | hnew := List.mem_append.mp hmem
    · obtain ⟨start, timeout, hadded, hle⟩ := h.notEarly id now hold
      exact ⟨start, timeout, List.mem_append_left _ hadded, hle⟩
    · cases List.mem_singleton.mp hnew
      exact ⟨_, _, List.mem_append_left _ (hbooks.added tmp (mem_of_isTop htop)), hdue⟩
  · rw [if_neg hactive]
    exact hpop

/-- In range, the time that is left is the deadline less the clock. -/
theorem getLeftTime_of_inRange {now : ℤ} {top : ℕ} (hrange : s.inRange (.turn now top) = true)
    (ht : t ∈ s.mTimers) : t.getLeftTime now = t.deadline - now := by
  obtain ⟨helapsed, hleft⟩ := Bool.and_eq_true_iff.mp (List.all_eq_true.mp hrange t ht)
  exact getLeftTime_eq helapsed hleft

theorem Timely.next (h : s.Timely) (hbooks : s.Books) (hrange : s.inRange a = true)
    (hnext : system.next s a = some s') : s'.Timely := by
  cases moves_of_next hnext with
  | addTimer now timeout => exact h.addTimer hrange
  | cancel id hid =>
      apply h.of_within (within_cancel s id) rfl rfl rfl (List.subset_append_left _ _)
      exact fun _ _ => called_of_mem_concat (by simp)
  | clear =>
      have hwithin : s.clear.Within s := within_of_subset (List.nil_subset _)
      apply h.of_within hwithin rfl rfl rfl (List.subset_append_left _ _)
      exact fun _ _ => called_of_mem_concat (by simp)
  | schedule => exact h.schedule hbooks
  | wait now tmp htop hleft => exact h.of_eq rfl rfl rfl rfl rfl
  | pop now tmp htop hleft =>
      have hclock : { s with clock := now }.Timely := h.of_eq rfl rfl rfl rfl rfl
      rw [getLeftTime_of_inRange hrange (mem_of_isTop htop)] at hleft
      exact hclock.call (hbooks.of_eq rfl rfl rfl) htop (by simpa using hleft)
  | finish hempty => exact h.of_eq rfl rfl rfl rfl rfl
  | callbackReturn => exact h.of_eq rfl rfl rfl rfl rfl

theorem timely_of_reachable (h : (system.restrict inRange).Reachable s) : s.Timely := by
  refine h.invariant ?_ ?_
  · rintro s ⟨clock, -, rfl⟩
    exact timely_start clock
  · intro s a s' hreach htimely hnext
    obtain ⟨hrange, hnext⟩ := System.next_of_restrict hnext
    exact htimely.next (books_of_reachable hreach.of_restrict) hrange hnext

/-- When `schedule` returns, no timer is left that is due. -/
theorem Timely.returns (h : s.Timely) (hrange : s.inRange a = true)
    (hnext : system.next s a = some s') (hbusy : s.phase ≠ .idle) (hidle : s'.phase = .idle)
    (ht : t ∈ s'.mTimers) : s'.clock < t.deadline := by
  cases moves_of_next hnext with
  | addTimer now timeout => exact absurd hidle hbusy
  | cancel id hid => exact absurd hidle hbusy
  | clear => exact absurd hidle hbusy
  | schedule => cases hidle
  | wait now tmp htop hleft =>
      rw [getLeftTime_of_inRange hrange (mem_of_isTop htop)] at hleft
      have hfirst : tmp.deadline ≤ t.deadline := h.deadline_le htop ht
      change now < t.deadline
      omega
  | pop now tmp htop hleft =>
      unfold TimerMgr.call at hidle
      split at hidle
      · cases hidle
      · exact absurd hidle hbusy
  | finish hempty =>
      change t ∈ s.mTimers at ht
      rw [hempty] at ht
      cases ht
  | callbackReturn => cases hidle

/-- **Timers.**  In every run in which no difference of times leaves `int64_t`: nothing in
the record speaks against a later call, that is, a timer is called once at most and not
after it was cancelled or cleared; no call is before the deadline of its timer; the timers
popped by a `schedule` that were there when it began come in the order of their deadlines;
and when `schedule` returns, no timer is left that was due at its last reading of the
clock. -/
theorem timers_called_when_due (h : (system.restrict inRange).Reachable s) :
    (s.log.Pairwise fun e later => e.bars later = false) ∧
    (∀ id now, .called id now ∈ s.log →
      (∃ start timeout, .added id start timeout ∈ s.log) ∧
      ∀ start timeout, .added id start timeout ∈ s.log → start + timeout ≤ now) ∧
    (s.poppedPresent.Pairwise fun t u => t.deadline ≤ u.deadline) ∧
    ∀ a s', (system.restrict inRange).next s a = some s' → s.phase ≠ .idle → s'.phase = .idle →
      ∀ t ∈ s'.mTimers, s'.clock < t.deadline := by
  have htimely := timely_of_reachable h
  refine ⟨(books_of_reachable h.of_restrict).unbarred, ?_, htimely.sorted, ?_⟩
  · intro id now hcalled
    obtain ⟨start, timeout, hadded, hle⟩ := htimely.notEarly id now hcalled
    refine ⟨⟨start, timeout, hadded⟩, ?_⟩
    intro start' timeout' hadded'
    obtain ⟨rfl, rfl⟩ := (numbered_of_reachable h.of_restrict).once _ _ _ _ _ hadded hadded'
    exact hle
  · intro a s' hnext hbusy hidle t ht
    obtain ⟨hrange, hnext⟩ := System.next_of_restrict hnext
    exact htimely.returns hrange hnext hbusy hidle ht

/-- Two timers, the second of which is due first and adds a third when it is called. -/
theorem timers_called_when_due_two :
    ∃ s, (system.restrict inRange).run (start 0)
        [.addTimer 0 10, .addTimer 1 4, .schedule, .turn 7 1, .addTimer 7 2, .callbackReturn] =
          some s ∧
      .called 1 7 ∈ s.log ∧ (s.log.Pairwise fun e later => e.bars later = false) ∧
      ∀ a s', (system.restrict inRange).next s a = some s' → s.phase ≠ .idle →
        s'.phase = .idle → ∀ t ∈ s'.mTimers, s'.clock < t.deadline := by
  obtain ⟨s, hrun⟩ : ∃ s, (system.restrict inRange).run (start 0)
      [.addTimer 0 10, .addTimer 1 4, .schedule, .turn 7 1, .addTimer 7 2, .callbackReturn] =
        some s := ⟨_, rfl⟩
  have hreach : (system.restrict inRange).Reachable s :=
    System.reachable_of_run ⟨0, rfl, rfl⟩ hrun
  have hcalled : .called 1 7 ∈ s.log := by
    cases hrun
    decide
  obtain ⟨hlog, -, -, hreturns⟩ := timers_called_when_due hreach
  exact ⟨s, hrun, hcalled, hlog, hreturns⟩

/-- A timer whose timeout is the least of all is due at once, and never called: the time
that is left wraps around. -/
theorem not_timers_called_when_due :
    ∃ s s', system.Reachable s ∧ system.next s (.turn 2 0) = some s' ∧ s.phase = .loop ∧
      s'.phase = .idle ∧ ∃ t ∈ s'.mTimers, t.deadline ≤ s'.clock := by
  obtain ⟨s, hrun⟩ : ∃ s, system.run (start 1) [.addTimer 1 (-2 ^ 63), .schedule] = some s :=
    ⟨_, rfl⟩
  have hreach : system.Reachable s := System.reachable_of_run ⟨1, rfl, rfl⟩ hrun
  cases hrun
  refine ⟨_, _, hreach, rfl, rfl, rfl, ?_⟩
  decide

end TimerMgr

end Brynet
