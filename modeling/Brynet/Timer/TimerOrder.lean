import Brynet.Timer.TimerRun

/-!
# The order of the timers

`CompareTimer` adds the differences of the start times and of the timeouts.  Each of them
fits in `int64_t` when the times are not negative, but their sum need not: it is the
difference of the deadlines, and two deadlines can be `2 ^ 63` and more apart.  Then the
comparison is the wrong way round, and a timer that is never due can stand in front of one
that is.
-/

namespace Brynet

open MachineInt

/-- Times that are not negative. -/
structure Timer.Forward (t : Timer) : Prop where
  start_nonneg : 0 ≤ t.mStartTime
  start_fits : fitsInt64 t.mStartTime = true
  last_nonneg : 0 ≤ t.mLastTime
  last_fits : fitsInt64 t.mLastTime = true

namespace TimerMgr

variable {s : TimerMgr} {t u tmp : Timer} {now : ℤ}

/-- **The comparison**, by how far the deadlines are apart. -/
theorem compareTimer_iff (ht : t.Forward) (hu : u.Forward) :
    compareTimer t u = true ↔
      (u.deadline < t.deadline ∧ t.deadline - u.deadline < 2 ^ 63) ∨
        t.deadline - u.deadline < -2 ^ 63 := by
  obtain ⟨ht0, ht1, ht2, ht3⟩ := ht
  obtain ⟨hu0, hu1, hu2, hu3⟩ := hu
  simp only [fitsInt64, Bool.and_eq_true, decide_eq_true_eq] at ht1 ht3 hu1 hu3
  have hstart : int64 (t.mStartTime - u.mStartTime) = t.mStartTime - u.mStartTime := by
    apply int64_eq
    simp only [fitsInt64, Bool.and_eq_true, decide_eq_true_eq]
    omega
  have hlast : int64 (t.mLastTime - u.mLastTime) = t.mLastTime - u.mLastTime := by
    apply int64_eq
    simp only [fitsInt64, Bool.and_eq_true, decide_eq_true_eq]
    omega
  -- Neither difference wraps around, but their sum may.
  have hsum : t.mStartTime - u.mStartTime + (t.mLastTime - u.mLastTime) =
      t.deadline - u.deadline := by
    unfold Timer.deadline
    omega
  have hlow : -2 ^ 64 < t.deadline - u.deadline := by omega
  have hhigh : t.deadline - u.deadline < 2 ^ 64 := by omega
  simp only [compareTimer, hstart, hlast, hsum, decide_eq_true_eq, gt_iff_lt,
    int64_pos_iff hlow hhigh, sub_pos]

/-- The order of two timers is that of their deadlines, either way, just when these are less
than `2 ^ 63` apart. -/
theorem compareTimer_iff_deadline (ht : t.Forward) (hu : u.Forward) :
    ((compareTimer t u = true ↔ u.deadline < t.deadline) ∧
        (compareTimer u t = true ↔ t.deadline < u.deadline)) ↔
      |t.deadline - u.deadline| < 2 ^ 63 := by
  rw [compareTimer_iff ht hu, compareTimer_iff hu ht, abs_lt]
  omega

/-- The time that is left can be computed after the timer has started. -/
theorem getLeftTime_of_forward (ht : t.Forward) (hstart : t.mStartTime ≤ now)
    (hnow : fitsInt64 now = true) : t.getLeftTime now = t.deadline - now := by
  obtain ⟨ht0, ht1, ht2, ht3⟩ := ht
  simp only [fitsInt64, Bool.and_eq_true, decide_eq_true_eq] at ht3 hnow
  apply getLeftTime_eq
  · simp only [fitsInt64, Bool.and_eq_true, decide_eq_true_eq]
    omega
  · simp only [fitsInt64, Bool.and_eq_true, decide_eq_true_eq]
    omega

/-! ## The queue -/

/-- `a` comes after `b` in the queue. -/
def After (s : TimerMgr) (a b : { t : Timer // t ∈ s.mTimers }) : Prop := compareTimer a b = true

/-- The queue is ordered by deadlines: whatever is on top of it is due first, and `schedule`
takes it out when anything is due. -/
structure ByDeadline (s : TimerMgr) : Prop where
  weakOrder : IsStrictWeakOrder { t : Timer // t ∈ s.mTimers } s.After
  agrees : ∀ t ∈ s.mTimers, ∀ u ∈ s.mTimers,
    (compareTimer t u = true ↔ u.deadline < t.deadline)
  smallest : ∀ tmp, s.isTop tmp = true → ∀ t ∈ s.mTimers, tmp.deadline ≤ t.deadline
  unblocked : ∀ tmp now, s.isTop tmp = true → fitsInt64 now = true →
    (∀ t ∈ s.mTimers, t.mStartTime ≤ now) → (∃ t ∈ s.mTimers, t.deadline ≤ now) →
    s.turn now tmp = ({ s with clock := now }.pop tmp).call tmp

/-- A relation that is the order of some numbers. -/
theorem isStrictWeakOrder_of_agrees
    (h : ∀ t ∈ s.mTimers, ∀ u ∈ s.mTimers, (compareTimer t u = true ↔ u.deadline < t.deadline)) :
    IsStrictWeakOrder { t : Timer // t ∈ s.mTimers } s.After := by
  have hafter : s.After = fun a b => b.val.deadline < a.val.deadline := by
    funext a b
    exact propext (h a.val a.property b.val b.property)
  rw [hafter]
  refine { irrefl := ?_, trans := ?_, incomp_trans := ?_ }
  · intro a
    exact lt_irrefl _
  · intro a b c hab hbc
    exact hbc.trans hab
  · intro a b c hab hbc
    omega

theorem isTop_iff :
    s.isTop tmp = true ↔ tmp ∈ s.mTimers ∧ ∀ t ∈ s.mTimers, ¬compareTimer tmp t = true := by
  simp [isTop]

/-- **The order by deadlines.**  The comparison is the strict weak order of the deadlines,
with the first of them on top and nothing in the way of a timer that is due, if and only if
any two deadlines are less than `2 ^ 63` apart. -/
theorem byDeadline_iff (hforward : ∀ t ∈ s.mTimers, t.Forward) :
    s.ByDeadline ↔ ∀ t ∈ s.mTimers, ∀ u ∈ s.mTimers, |t.deadline - u.deadline| < 2 ^ 63 := by
  constructor
  · intro h t ht u hu
    -- The order agrees for the two timers either way round.
    exact (compareTimer_iff_deadline (hforward t ht) (hforward u hu)).mp
      ⟨h.agrees t ht u hu, h.agrees u hu t ht⟩
  · intro hnear
    have hagrees : ∀ t ∈ s.mTimers, ∀ u ∈ s.mTimers,
        (compareTimer t u = true ↔ u.deadline < t.deadline) := by
      intro t ht u hu
      exact ((compareTimer_iff_deadline (hforward t ht) (hforward u hu)).mpr (hnear t ht u hu)).1
    have hsmallest : ∀ tmp, s.isTop tmp = true → ∀ t ∈ s.mTimers, tmp.deadline ≤ t.deadline := by
      intro tmp htop t ht
      obtain ⟨hmem, hmax⟩ := isTop_iff.mp htop
      exact not_lt.mp (mt (hagrees tmp hmem t ht).mpr (hmax t ht))
    refine ⟨isStrictWeakOrder_of_agrees hagrees, hagrees, hsmallest, ?_⟩
    rintro tmp now htop hnow hstarted ⟨t, ht, hdue⟩
    have hmem := mem_of_isTop htop
    have hleft := getLeftTime_of_forward (hforward tmp hmem) (hstarted tmp hmem) hnow
    have hle := hsmallest tmp htop t ht
    -- The top is due when any timer is.
    rw [turn, if_neg (by omega)]

/-- Two timers of a minute and an hour. -/
theorem byDeadline_iff_two :
    let minute : Timer := { id := 0, mActive := true, mStartTime := 5, mLastTime := 60000000000 }
    let hour : Timer := { id := 1, mActive := true, mStartTime := 7, mLastTime := 3600000000000 }
    { start 8 with mTimers := [hour, minute] }.ByDeadline := by
  intro minute hour
  refine (byDeadline_iff ?_).mpr ?_
  · intro t ht
    obtain rfl | rfl : t = hour ∨ t = minute := by simpa using ht
    · exact ⟨by decide, by decide, by decide, by decide⟩
    · exact ⟨by decide, by decide, by decide, by decide⟩
  · intro t ht u hu
    obtain rfl | rfl : t = hour ∨ t = minute := by simpa using ht
    · obtain rfl | rfl : u = hour ∨ u = minute := by simpa using hu
      · decide
      · decide
    · obtain rfl | rfl : u = hour ∨ u = minute := by simpa using hu
      · decide
      · decide

/-- With a timer for `nanoseconds::max()`, made three nanoseconds later, in front, a timer
that has been due for two is not called. -/
theorem not_byDeadline_never :
    let near : Timer := { id := 0, mActive := true, mStartTime := 0, mLastTime := 1 }
    let never : Timer := { id := 1, mActive := true, mStartTime := 3, mLastTime := 2 ^ 63 - 1 }
    let s : TimerMgr := { start 3 with mTimers := [never, near], phase := .loop }
    (∀ t ∈ s.mTimers, t.Forward) ∧ s.isTop never = true ∧ near.deadline ≤ 3 ∧
      s.turn 3 never = { s with phase := .idle } ∧ ¬s.ByDeadline := by
  intro near never s
  have hforward : ∀ t ∈ s.mTimers, t.Forward := by
    intro t ht
    obtain rfl | rfl : t = never ∨ t = near := by simpa [s] using ht
    · exact ⟨by decide, by decide, by decide, by decide⟩
    · exact ⟨by decide, by decide, by decide, by decide⟩
  have htop : s.isTop never = true := by decide
  refine ⟨hforward, htop, by decide, by decide, fun h => ?_⟩
  have hle := h.smallest never htop near (by simp [s])
  revert hle
  decide

end TimerMgr

end Brynet
