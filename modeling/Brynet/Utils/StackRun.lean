import Brynet.Utils.Stack

/-!
# A stack is a list with two ends

The contents of a stack are those of a ring buffer over the cells of its array, as long as
no sum leaves `int`.  With elements of one byte a stack can have more than `2 ^ 30` cells;
the position of the front and the number of elements can then add up to `2 ^ 31`, and the
index that is computed from them is negative.

* `Wf.contents_eq` and the theorems for the single calls: a call does to the contents what
  `Deque.step` does to a list, if no sum it computes leaves `int` (`inRange`);
* `stack_refines_deque`: the induction on the calls, with the list beside the stack;
* with elements of two bytes or more no array is long enough for such a sum
  (`Wf.inRange_of_two_le`), so there the stack is a list in every run
  (`reachable_of_two_le`);
* `run_to_overflow`: with elements of one byte there is a run to it.
-/

namespace Brynet

open MachineInt Transition

/-! ## The array -/

namespace ArrayS

/-- The cells are those that are counted. -/
def Wf (a : ArrayS) : Prop := (a.cells.length : ℤ) = a.elementNum

variable {a : ArrayS}

theorem wf_new {num : ℤ} (hnum : 0 ≤ num) (elementSize : ℕ)
    (h : oxArrayNew true num elementSize = some a) : a.Wf ∧ a.elementNum = num := by
  cases h
  exact ⟨by rw [Wf, List.length_replicate, Int.toNat_of_nonneg hnum], rfl⟩

theorem Wf.oxArrayAt (h : a.Wf) (i : ℕ) : a.oxArrayAt i = a.cells[i]? := by
  unfold Wf at h
  unfold ArrayS.oxArrayAt
  by_cases hi : (0 : ℤ) ≤ i ∧ (i : ℤ) < a.elementNum
  · rw [if_pos hi, Int.toNat_natCast]
  · rw [if_neg hi, List.getElem?_eq_none (by omega)]

theorem Wf.oxArraySet (h : a.Wf) {i : ℕ} (hi : i < a.cells.length) (data : Element) :
    a.oxArraySet i data = ({ a with cells := a.cells.set i data }, true) := by
  rw [ArrayS.oxArraySet, h.oxArrayAt, List.getElem?_eq_getElem hi, Int.toNat_natCast]

end ArrayS

/-! ## The stack -/

namespace StackS

structure Wf (s : StackS) : Prop where
  array : s.array.Wf
  array_num : s.array.elementNum = s.elementNum
  elementNum_lt : s.elementNum < 2 ^ 31
  front_nonneg : 0 ≤ s.front
  front_le : s.front ≤ s.elementNum
  front_lt : 0 < s.elementNum → s.front < s.elementNum
  num_nonneg : 0 ≤ s.num
  num_le : s.num ≤ s.elementNum

variable {s : StackS} {data : Element} {malloc : Bool}

theorem Wf.length_cells (wf : s.Wf) : (s.array.cells.length : ℤ) = s.elementNum :=
  wf.array.trans wf.array_num

theorem Wf.num_le_length (wf : s.Wf) : s.num.toNat ≤ s.array.cells.length := by
  have hlength := wf.length_cells
  have hnum := wf.num_le
  omega

/-- An index that is computed without wrapping around. -/
theorem Wf.index_eq (wf : s.Wf) {i : ℕ} (hsum : s.front + i < 2 ^ 31) :
    s.index i = ((s.front.toNat + i) % s.array.cells.length : ℕ) := by
  have hfront := wf.front_nonneg
  have hcast : s.front + i = ((s.front.toNat + i : ℕ) : ℤ) := by omega
  rw [index, int32_eq (by omega) hsum, hcast, ← wf.length_cells]
  exact (Int.tmod_eq_emod_of_nonneg (by omega)).trans (Int.natCast_mod _ _).symm

theorem Wf.contents_eq (wf : s.Wf) :
    s.contents = RingBuffer.contents s.array.cells s.front.toNat s.num.toNat := by
  have hfront := wf.front_nonneg
  rw [contents, RingBuffer.contents]
  apply List.map_congr_left
  intro i _
  have hcast : s.front + i = ((s.front.toNat + i : ℕ) : ℤ) := by omega
  rw [hcast, ← wf.length_cells, ← Int.natCast_mod, Int.toNat_natCast]
  rfl

/-! ## Growth -/

/-- After some turns of the loop the first elements are at the beginning of the new array. -/
theorem Wf.copyTo (wf : s.Wf) (hsum : s.front + s.num ≤ 2 ^ 31) {tmp : ArrayS} (htmp : tmp.Wf)
    (hroom : s.num ≤ tmp.elementNum) {i : ℕ} (hi : i ≤ s.num.toNat) :
    s.copyTo tmp i = { tmp with cells := s.contents.take i ++ tmp.cells.drop i } := by
  induction i with
  | zero => rfl
  | succ i ih =>
      -- The turn reads the element `i` places behind the front and writes cell `i` of `tmp`.
      have hlength : i < tmp.cells.length := by
        unfold ArrayS.Wf at htmp
        omega
      have helement : i < s.contents.length := by
        rw [wf.contents_eq, RingBuffer.length_contents]
        omega
      have hread : s.array.oxArrayAt (s.index i) = some s.contents[i] := by
        rw [wf.index_eq (by omega), wf.array.oxArrayAt, ← List.getElem?_eq_getElem helement]
        simp only [wf.contents_eq]
        rw [RingBuffer.getElem?_contents wf.num_le_length hi]
      have hwf : ({ tmp with cells := s.contents.take i ++ tmp.cells.drop i } : ArrayS).Wf := by
        unfold ArrayS.Wf at htmp ⊢
        simp only [List.length_append, List.length_take, List.length_drop]
        omega
      have hcell : i < (s.contents.take i ++ tmp.cells.drop i).length := by
        simp only [List.length_append, List.length_take, List.length_drop]
        omega
      rw [StackS.copyTo, hread]
      simp only [ih (by omega), hwf.oxArraySet hcell, RingBuffer.copy_succ helement hlength]

/-- What a stack is after it has grown. -/
structure Grown (s s' : StackS) (increaseNum : ℤ) : Prop where
  wf : s'.Wf
  contents_eq : s'.contents = s.contents
  elementNum_eq : s'.elementNum = s.elementNum + increaseNum
  num_eq : s'.num = s.num
  front_eq : s'.front = 0

theorem increase_of_false (increaseNum : ℤ) :
    s.oxStackIncrease false increaseNum = (s, false) := rfl

theorem Wf.increase (wf : s.Wf) {increaseNum : ℤ} (hnonneg : 0 ≤ increaseNum)
    (hnew : s.elementNum + increaseNum < 2 ^ 31) (hsum : s.front + s.num ≤ 2 ^ 31) :
    (s.oxStackIncrease true increaseNum).2 = true ∧
      s.Grown (s.oxStackIncrease true increaseNum).1 increaseNum := by
  have hnum := wf.num_nonneg
  have hle := wf.num_le
  obtain ⟨tmp, htmp⟩ :
      ∃ tmp, ArrayS.oxArrayNew true (s.elementNum + increaseNum) s.elementSize = some tmp :=
    ⟨_, rfl⟩
  obtain ⟨hwf, htmpNum⟩ := ArrayS.wf_new (by omega) _ htmp
  have hlength : s.contents.length = s.num.toNat := by
    rw [wf.contents_eq, RingBuffer.length_contents]
  -- The elements are at the beginning now, and what is left of the new array follows.
  have hcopy : s.copyTo tmp s.num.toNat =
      { tmp with cells := s.contents ++ tmp.cells.drop s.num.toNat } := by
    rw [wf.copyTo hsum hwf (by omega) le_rfl, List.take_of_length_le hlength.le]
  have hincrease : s.oxStackIncrease true increaseNum =
      ({ s with
          array := { tmp with cells := s.contents ++ tmp.cells.drop s.num.toNat }
          front := 0
          elementNum := tmp.elementNum }, true) := by
    rw [oxStackIncrease, int32_eq (by omega) hnew, htmp]
    simp only [hcopy]
  rw [hincrease]
  have hcells : (s.contents ++ tmp.cells.drop s.num.toNat).length = tmp.cells.length := by
    unfold ArrayS.Wf at hwf
    rw [List.length_append, hlength, List.length_drop]
    omega
  have hgrown : StackS.Wf { s with
      array := { tmp with cells := s.contents ++ tmp.cells.drop s.num.toNat }
      front := 0
      elementNum := tmp.elementNum } := by
    refine ⟨?_, rfl, by rwa [htmpNum], le_rfl, ?_, fun hpos => hpos, hnum, ?_⟩
    · unfold ArrayS.Wf at hwf ⊢
      rw [hcells, hwf]
    · simp only [htmpNum]
      omega
    · simp only [htmpNum]
      omega
  refine ⟨rfl, hgrown, ?_, htmpNum, rfl, rfl⟩
  rw [hgrown.contents_eq]
  simp only [Int.toNat_zero, ← hlength]
  exact RingBuffer.contents_append _ _

/-! ## The ends -/

/-- A push into a stack that is not full fills the next cell. -/
theorem Wf.pushInto_eq (wf : s.Wf) (hroom : s.num < s.elementNum)
    (hsum : s.front + s.num < 2 ^ 31) (data : Element) :
    s.pushInto data =
      ({ s with
          array := { s.array with
            cells := s.array.cells.set ((s.front.toNat + s.num.toNat) % s.array.cells.length) data }
          num := s.num + 1 }, true) := by
  have hnum := wf.num_nonneg
  have hlt := wf.elementNum_lt
  have hlength := wf.length_cells
  have hcast : s.num = (s.num.toNat : ℤ) := (Int.toNat_of_nonneg hnum).symm
  have hcell : (s.front.toNat + s.num.toNat) % s.array.cells.length < s.array.cells.length :=
    Nat.mod_lt _ (by omega)
  have hindex : s.index s.num = ((s.front.toNat + s.num.toNat) % s.array.cells.length : ℕ) := by
    rw [hcast]
    exact wf.index_eq (by omega)
  rw [StackS.pushInto, oxStackIsfull, decide_eq_false (by omega), if_neg Bool.false_ne_true,
    hindex, wf.array.oxArraySet hcell, int32_eq (by omega) (by omega)]

theorem Wf.pushInto (wf : s.Wf) (hroom : s.num < s.elementNum) (hsum : s.front + s.num < 2 ^ 31)
    (data : Element) :
    (s.pushInto data).2 = true ∧ (s.pushInto data).1.Wf ∧
      (s.pushInto data).1.contents = s.contents ++ [data] := by
  have hnum := wf.num_nonneg
  have hlength := wf.length_cells
  have hpush := wf.pushInto_eq hroom hsum data
  have hwf : (s.pushInto data).1.Wf := by
    rw [hpush]
    refine ⟨?_, wf.array_num, wf.elementNum_lt, wf.front_nonneg, wf.front_le, wf.front_lt, ?_, ?_⟩
    · exact (congrArg Nat.cast List.length_set).trans wf.array
    · exact Int.add_nonneg hnum (by decide)
    · exact hroom
  refine ⟨by rw [hpush], hwf, ?_⟩
  rw [hwf.contents_eq, wf.contents_eq, hpush]
  have hsucc : (s.num + 1).toNat = s.num.toNat + 1 := by omega
  simp only [hsucc]
  exact RingBuffer.contents_set (by omega)

/-- With room an element is pushed, and otherwise nothing happens. -/
theorem Wf.pushInto_spec (wf : s.Wf)
    (hsum : s.num < s.elementNum → s.front + s.num < 2 ^ 31) (data : Element) :
    (s.pushInto data).1.Wf ∧ (s.pushInto data).2 = decide (s.num < s.elementNum) ∧
      (s.pushInto data).1.contents =
        if decide (s.num < s.elementNum) then s.contents ++ [data] else s.contents := by
  by_cases hroom : s.num < s.elementNum
  · obtain ⟨htrue, hwf, hcontents⟩ := wf.pushInto hroom (hsum hroom) data
    rw [decide_eq_true hroom, if_pos rfl]
    exact ⟨hwf, htrue, hcontents⟩
  · have hfull : s.num = s.elementNum := le_antisymm wf.num_le (not_lt.mp hroom)
    have hpush : s.pushInto data = (s, false) := by
      rw [StackS.pushInto, oxStackIsfull, decide_eq_true hfull, if_pos rfl]
    rw [hpush, decide_eq_false hroom, if_neg Bool.false_ne_true]
    exact ⟨wf, rfl, rfl⟩

theorem Wf.contents_of_le (wf : s.Wf) (h : ¬0 < s.num) : s.contents = [] := by
  have hzero : s.num.toNat = 0 := by omega
  rw [wf.contents_eq, hzero]
  rfl

/-- The element in front, if there is one. -/
theorem Wf.front_eq (wf : s.Wf) : s.oxStackFront = s.contents.head? := by
  have hfront := wf.front_nonneg
  have hle := wf.num_le
  have hlength := wf.length_cells
  unfold oxStackFront
  by_cases hpos : 0 < s.num
  · have hlt := wf.front_lt (by omega)
    have hcast : s.front = (s.front.toNat : ℤ) := (Int.toNat_of_nonneg hfront).symm
    rw [if_pos hpos, wf.contents_eq,
      RingBuffer.head?_contents wf.num_le_length (by omega) (by omega), hcast,
      wf.array.oxArrayAt, Int.toNat_natCast]
  · rw [if_neg hpos, wf.contents_of_le hpos]
    rfl

/-- An element is popped by moving the front to the next cell. -/
theorem Wf.popfront_eq (wf : s.Wf) (hpos : 0 < s.num) :
    ∃ data, s.contents.head? = some data ∧
      s.oxStackPopfront =
        ({ s with
            num := s.num - 1
            front := ((s.front.toNat + 1) % s.array.cells.length : ℕ) }, some data) := by
  have hle := wf.num_le
  have hlt := wf.elementNum_lt
  have hfront := wf.front_lt (by omega)
  have hindex : (int32 (s.front + 1)).tmod s.elementNum =
      ((s.front.toNat + 1) % s.array.cells.length : ℕ) := wf.index_eq (i := 1) (by omega)
  obtain ⟨data, hdata⟩ : ∃ data, s.contents.head? = some data := by
    rw [← Option.isSome_iff_exists, List.isSome_head?, wf.contents_eq, ← List.length_pos_iff,
      RingBuffer.length_contents]
    omega
  refine ⟨data, hdata, ?_⟩
  rw [oxStackPopfront, wf.front_eq, hdata, hindex, int32_eq (by omega) (by omega)]

theorem Wf.popfront (wf : s.Wf) :
    s.oxStackPopfront.2 = s.contents.head? ∧ s.oxStackPopfront.1.Wf ∧
      s.oxStackPopfront.1.contents = s.contents.tail := by
  by_cases hpos : 0 < s.num
  · obtain ⟨data, hdata, hpop⟩ := wf.popfront_eq hpos
    have hle := wf.num_le
    have hlength := wf.length_cells
    have hcell : (s.front.toNat + 1) % s.array.cells.length < s.array.cells.length :=
      Nat.mod_lt _ (by omega)
    have hwf : s.oxStackPopfront.1.Wf := by
      rw [hpop]
      refine ⟨wf.array, wf.array_num, wf.elementNum_lt, Int.natCast_nonneg _, ?_, fun _ => ?_,
        ?_, ?_⟩
      all_goals
        simp only
        omega
    refine ⟨by rw [hpop, hdata], hwf, ?_⟩
    obtain ⟨k, hnum⟩ : ∃ k, s.num.toNat = k + 1 := ⟨s.num.toNat - 1, by omega⟩
    have hpred : (s.num - 1).toNat = k := by omega
    rw [hwf.contents_eq, wf.contents_eq, hpop, hnum, RingBuffer.tail_contents]
    simp only [hpred, Int.toNat_natCast]
  · have hempty := wf.contents_of_le hpos
    have hpop : s.oxStackPopfront = (s, none) := by
      rw [oxStackPopfront, wf.front_eq, hempty]
      rfl
    rw [hpop, hempty]
    exact ⟨rfl, wf, rfl⟩

theorem Wf.popback (wf : s.Wf) (hsum : s.front + s.num ≤ 2 ^ 31) :
    s.oxStackPopback.2 = s.contents.getLast? ∧ s.oxStackPopback.1.Wf ∧
      s.oxStackPopback.1.contents = s.contents.dropLast := by
  by_cases hpos : 0 < s.num
  · obtain ⟨k, hk⟩ : ∃ k : ℕ, s.num = k + 1 := ⟨(s.num - 1).toNat, by omega⟩
    have hle := wf.num_le
    have hlt := wf.elementNum_lt
    have hlength := wf.length_cells
    have hnum : s.num.toNat = k + 1 := by omega
    have hpred : int32 (s.num - 1) = k := by
      rw [int32_eq (by omega) (by omega)]
      omega
    have hpop : s.oxStackPopback =
        ({ s with num := k },
          s.array.cells[(s.front.toNat + k) % s.array.cells.length]?) := by
      rw [oxStackPopback, if_pos hpos]
      simp only [hpred, wf.index_eq (i := k) (by omega), wf.array.oxArrayAt]
    have hwf : s.oxStackPopback.1.Wf := by
      rw [hpop]
      refine ⟨wf.array, wf.array_num, hlt, wf.front_nonneg, wf.front_le, wf.front_lt,
        Int.natCast_nonneg _, ?_⟩
      simp only
      omega
    refine ⟨?_, hwf, ?_⟩
    · rw [hpop, wf.contents_eq, hnum, RingBuffer.getLast?_contents (by omega)]
    · rw [hwf.contents_eq, wf.contents_eq, hnum, RingBuffer.dropLast_contents, hpop]
      simp only [Int.toNat_natCast]
  · have hempty := wf.contents_of_le hpos
    have hpop : s.oxStackPopback = (s, none) := by
      rw [oxStackPopback, if_neg hpos]
    rw [hpop, hempty]
    exact ⟨rfl, wf, rfl⟩

end StackS

/-! ## Calls -/

/-- A list with two ends.  `granted` is whether there is room for one more element, or memory
for more room. -/
def Deque.step (l : List Element) (granted : Bool) : StackCall → List Element × StackReply
  | .push _ data => (if granted then l ++ [data] else l, .bool granted)
  | .popfront => (l.tail, .pointer l.head?)
  | .popback => (l.dropLast, .pointer l.getLast?)
  | .front => (l, .pointer l.head?)
  | .increase _ _ => (l, .bool granted)
  | .init => ([], .void)

namespace StackS

variable {s : StackS} {c : StackCall} {l : List Element}

/-- A full stack grows by as much as it has, if it gets the memory. -/
def grants (s : StackS) : StackCall → Bool
  | .push malloc _ => !s.oxStackIsfull || (malloc && 0 < s.elementNum)
  | .increase malloc _ => malloc
  | _ => true

/-- What a call makes of the contents and what it returns are what the list says. -/
structure Simulates (s : StackS) (c : StackCall) : Prop where
  wf : (s.call c).1.Wf
  contents_eq : (s.call c).1.contents = (Deque.step s.contents (s.grants c) c).1
  reply_eq : (s.call c).2 = (Deque.step s.contents (s.grants c) c).2

theorem simulates_push {malloc : Bool} {data : Element} {s' : StackS}
    (hpush : s.oxStackPush malloc data = s'.pushInto data) (hwf : s'.Wf)
    (hsum : s'.num < s'.elementNum → s'.front + s'.num < 2 ^ 31)
    (hcontents : s'.contents = s.contents)
    (hgrants : s.grants (.push malloc data) = decide (s'.num < s'.elementNum)) :
    s.Simulates (.push malloc data) := by
  obtain ⟨hpushed, hreply, heq⟩ := hwf.pushInto_spec hsum data
  rw [← hgrants, ← hpush] at hreply
  rw [← hgrants, ← hpush, hcontents] at heq
  rw [← hpush] at hpushed
  exact ⟨hpushed, heq, congrArg StackReply.bool hreply⟩

theorem Wf.push (wf : s.Wf) {malloc : Bool} {data : Element}
    (hrange : s.inRange (.push malloc data) = true) : s.Simulates (.push malloc data) := by
  have hnum := wf.num_nonneg
  have hlt := wf.elementNum_lt
  have hle := wf.num_le
  by_cases hfull : s.num = s.elementNum
  · have hisfull : s.oxStackIsfull = true := decide_eq_true hfull
    rw [inRange, if_pos hisfull, Bool.and_eq_true, decide_eq_true_eq] at hrange
    cases malloc with
    | false =>
        -- The stack is still full, and there is no index to compute.
        refine simulates_push ?_ wf (by omega) rfl ?_
        · rw [oxStackPush, if_pos hisfull, increase_of_false]
        · simp [grants, hisfull, hfull]
    | true =>
        have hsum : s.front + s.num ≤ 2 ^ 31 := by simpa using hrange.2
        obtain ⟨-, hgrown⟩ := wf.increase (by omega) hrange.1 hsum
        have hnum' := hgrown.num_eq
        have helementNum := hgrown.elementNum_eq
        have hfront := hgrown.front_eq
        -- Twice as many cells, unless there were none.
        refine simulates_push ?_ hgrown.wf (by omega) hgrown.contents_eq ?_
        · rw [oxStackPush, if_pos hisfull, oxStackSize]
        · simp only [grants, hisfull, Bool.not_true, Bool.false_or, Bool.true_and,
            decide_eq_decide]
          omega
  · have hisfull : s.oxStackIsfull = false := decide_eq_false hfull
    rw [inRange, hisfull, if_neg Bool.false_ne_true, decide_eq_true_eq] at hrange
    refine simulates_push ?_ wf (fun _ => hrange) rfl ?_
    · rw [oxStackPush, hisfull, if_neg Bool.false_ne_true]
    · rw [grants, hisfull, Bool.not_false, Bool.true_or, decide_eq_true (by omega)]

/-- **One call** is a step of the list. -/
theorem Wf.call (wf : s.Wf) (hmay : s.mayCall c = true) (hrange : s.inRange c = true) :
    s.Simulates c := by
  cases c with
  | push malloc data => exact wf.push hrange
  | popfront =>
      obtain ⟨hreply, hwf, hcontents⟩ := wf.popfront
      exact ⟨hwf, hcontents, congrArg StackReply.pointer hreply⟩
  | popback =>
      obtain ⟨hreply, hwf, hcontents⟩ := wf.popback (of_decide_eq_true hrange)
      exact ⟨hwf, hcontents, congrArg StackReply.pointer hreply⟩
  | front => exact ⟨wf, rfl, congrArg StackReply.pointer wf.front_eq⟩
  | increase malloc increaseNum =>
      simp only [mayCall, inRange, Bool.and_eq_true, decide_eq_true_eq] at hmay hrange
      cases malloc with
      | false => exact ⟨wf, rfl, rfl⟩
      | true =>
          have hsum : s.front + s.num ≤ 2 ^ 31 := by simpa using hrange.2
          obtain ⟨hreply, hgrown⟩ := wf.increase hmay.1.1 hrange.1 hsum
          exact ⟨hgrown.wf, hgrown.contents_eq, congrArg StackReply.bool hreply⟩
  | init =>
      have hnonneg := wf.num_nonneg.trans wf.num_le
      exact ⟨⟨wf.array, wf.array_num, wf.elementNum_lt, le_rfl, hnonneg, fun hpos => hpos, le_rfl,
        hnonneg⟩, rfl, rfl⟩

/-! ## Runs -/

theorem wf_of_init (h : system.init s) : s.Wf ∧ s.contents = [] := by
  obtain ⟨num, elementSize, hnonneg, hlt, -, hnew⟩ := h
  cases hnew
  refine ⟨⟨?_, rfl, hlt, le_rfl, hnonneg, fun hpos => hpos, le_rfl, hnonneg⟩, rfl⟩
  exact (ArrayS.wf_new hnonneg elementSize rfl).1

/-- The calls that stay in the range of `int`, with the list that they should make. -/
def deque : System (StackS × List Element) StackCall :=
  (system.restrict inRange).record [] fun s c l => (Deque.step l (s.grants c) c).1

theorem wf_of_deque {p : StackS × List Element} (h : deque.Reachable p) :
    p.1.Wf ∧ p.1.contents = p.2 := by
  refine h.invariant (I := fun p => p.1.Wf ∧ p.1.contents = p.2) ?_ ?_
  · rintro ⟨s, l⟩ ⟨hinit, rfl⟩
    exact wf_of_init hinit
  · rintro ⟨s, l⟩ c ⟨s', l'⟩ - ⟨wf, hl⟩ hnext
    change s.contents = l at hl
    subst hl
    obtain ⟨hrestrict, rfl⟩ := System.next_of_record hnext
    obtain ⟨hrange, hcall⟩ := System.next_of_restrict hrestrict
    obtain ⟨hmay, ⟨⟩⟩ := Option.ite_none_right_eq_some.mp hcall
    obtain ⟨hwf, hcontents, -⟩ := wf.call hmay hrange
    exact ⟨hwf, hcontents⟩

/-- **A stack is a list with two ends.**  In every run whose calls stay in the range of `int`
the contents are the list that the calls make, the front is within the array and there are not
more elements than it has cells; and each call returns what the list says. -/
theorem stack_refines_deque (h : deque.Reachable (s, l)) :
    s.contents = l ∧ (0 < s.elementNum → 0 ≤ s.front ∧ s.front < s.elementNum) ∧
    0 ≤ s.num ∧ s.num ≤ s.elementNum ∧
    ∀ c, s.mayCall c = true → s.inRange c = true →
      ((s.call c).1.contents, (s.call c).2) = Deque.step l (s.grants c) c := by
  obtain ⟨wf, hl⟩ := wf_of_deque h
  change s.contents = l at hl
  subst hl
  refine ⟨rfl, fun hpos => ⟨wf.front_nonneg, wf.front_lt hpos⟩, wf.num_nonneg, wf.num_le, ?_⟩
  intro c hmay hrange
  obtain ⟨-, hcontents, hreply⟩ := wf.call hmay hrange
  exact Prod.ext hcontents hreply

/-- A stack with two cells that wraps around and grows. -/
theorem stack_refines_deque_two :
    ∃ s l, deque.run ((oxStackNew true 2 1).get rfl, [])
        [.push true [1], .push true [2], .popfront, .push true [3], .push true [4]] = some (s, l) ∧
      s.elementNum = 4 ∧ s.contents = [[2], [3], [4]] ∧
      (s.call .popback).2 = .pointer (some [4]) := by
  obtain ⟨⟨s, l⟩, hrun⟩ : ∃ p, deque.run ((oxStackNew true 2 1).get rfl, [])
      [.push true [1], .push true [2], .popfront, .push true [3], .push true [4]] = some p :=
    ⟨_, rfl⟩
  have hinit : deque.init ((oxStackNew true 2 1).get rfl, []) :=
    ⟨⟨2, 1, by decide, by decide, by decide, rfl⟩, rfl⟩
  have hs : s.elementNum = 4 ∧ l = [[2], [3], [4]] ∧ s.inRange .popback = true := by
    cases hrun
    decide
  obtain ⟨hcontents, -, -, -, hcall⟩ := stack_refines_deque (System.reachable_of_run hinit hrun)
  refine ⟨s, l, hrun, hs.1, hcontents.trans hs.2.1, ?_⟩
  refine (congrArg Prod.snd (hcall .popback rfl hs.2.2)).trans ?_
  rw [hs.2.1]
  rfl

/-! ## Elements of more than one byte

An array of them has less than `2 ^ 30` cells, so that no sum of two counts leaves `int`. -/

theorem add_self_lt {m : ℤ} {elementSize : ℕ} (hm : 0 ≤ m) (hsize : 2 ≤ elementSize)
    (h : m * elementSize < 2 ^ 31) : m + m < 2 ^ 31 := by
  have hmul : m * 2 ≤ m * elementSize := Int.mul_le_mul_of_nonneg_left (by omega) hm
  omega

theorem Wf.inRange_of_two_le (wf : s.Wf) (hsize : 2 ≤ s.elementSize)
    (hbytes : s.elementNum * s.elementSize < 2 ^ 31) (hmay : s.mayCall c = true) :
    s.inRange c = true := by
  have hnum := wf.num_nonneg
  have hle := wf.num_le
  have hfront := wf.front_le
  have hdouble := add_self_lt (hnum.trans hle) hsize hbytes
  cases c with
  | push malloc data =>
      simp only [inRange]
      split
      · simp only [Bool.and_eq_true, Bool.or_eq_true, decide_eq_true_eq]
        exact ⟨hdouble, .inr (by omega)⟩
      · exact decide_eq_true (by omega)
  | popback => exact decide_eq_true (by omega)
  | increase malloc increaseNum =>
      simp only [mayCall, Bool.and_eq_true, decide_eq_true_eq] at hmay
      have hnew := add_self_lt (by omega) hsize hmay.2
      simp only [inRange, Bool.and_eq_true, Bool.or_eq_true, decide_eq_true_eq]
      exact ⟨by omega, .inr (by omega)⟩
  | popfront => rfl
  | front => rfl
  | init => rfl

/-- The settings of a stack, which only growth changes. -/
def settings (s : StackS) : ℤ × ℕ := (s.elementNum, s.elementSize)

theorem settings_pushInto (data : Element) : (s.pushInto data).1.settings = s.settings := by
  unfold StackS.pushInto
  split <;> rfl

theorem settings_popfront : s.oxStackPopfront.1.settings = s.settings := by
  unfold oxStackPopfront
  split <;> rfl

theorem settings_popback : s.oxStackPopback.1.settings = s.settings := by
  unfold oxStackPopback
  split <;> rfl

theorem elementSize_increase (malloc : Bool) (increaseNum : ℤ) :
    (s.oxStackIncrease malloc increaseNum).1.elementSize = s.elementSize := by
  cases malloc <;> rfl

theorem elementSize_call : (s.call c).1.elementSize = s.elementSize := by
  cases c with
  | push malloc data =>
      change (s.oxStackPush malloc data).1.elementSize = _
      unfold oxStackPush
      split
      · exact (congrArg Prod.snd (settings_pushInto data)).trans (elementSize_increase _ _)
      · exact congrArg Prod.snd (settings_pushInto data)
  | popfront => exact congrArg Prod.snd settings_popfront
  | popback => exact congrArg Prod.snd settings_popback
  | front => rfl
  | increase malloc increaseNum => exact elementSize_increase _ _
  | init => rfl

/-- A stack that asks for an array of less than `2 ^ 31` bytes has one. -/
theorem Wf.bytes_increase (wf : s.Wf) (hbytes : s.elementNum * s.elementSize < 2 ^ 31)
    {malloc : Bool} {increaseNum : ℤ} (hnonneg : 0 ≤ increaseNum)
    (hnew : s.elementNum + increaseNum < 2 ^ 31)
    (hsum : (!malloc || decide (s.front + s.num ≤ 2 ^ 31)) = true)
    (hmay : (s.elementNum + increaseNum) * s.elementSize < 2 ^ 31) :
    (s.oxStackIncrease malloc increaseNum).1.elementNum * s.elementSize < 2 ^ 31 := by
  cases malloc with
  | false => exact hbytes
  | true =>
      obtain ⟨-, hgrown⟩ := wf.increase hnonneg hnew (by simpa using hsum)
      rwa [hgrown.elementNum_eq]

theorem Wf.bytes_call (wf : s.Wf) (hbytes : s.elementNum * s.elementSize < 2 ^ 31)
    (hmay : s.mayCall c = true) (hrange : s.inRange c = true) :
    (s.call c).1.elementNum * s.elementSize < 2 ^ 31 := by
  cases c with
  | push malloc data =>
      change (s.oxStackPush malloc data).1.settings.1 * _ < _
      unfold oxStackPush
      by_cases hisfull : s.oxStackIsfull = true
      · simp only [mayCall, inRange, hisfull, Bool.not_true, Bool.false_or, if_pos,
          Bool.and_eq_true, decide_eq_true_eq] at hmay hrange
        rw [if_pos hisfull, settings_pushInto]
        exact wf.bytes_increase hbytes (wf.num_nonneg.trans wf.num_le) hrange.1 hrange.2 hmay
      · rwa [if_neg hisfull, settings_pushInto]
  | popfront =>
      change s.oxStackPopfront.1.settings.1 * _ < _
      rwa [settings_popfront]
  | popback =>
      change s.oxStackPopback.1.settings.1 * _ < _
      rwa [settings_popback]
  | front => exact hbytes
  | increase malloc increaseNum =>
      simp only [mayCall, inRange, Bool.and_eq_true, decide_eq_true_eq] at hmay hrange
      exact wf.bytes_increase hbytes hmay.1.1 hrange.1 hrange.2 hmay.2
  | init => exact hbytes

/-- **With elements of two bytes or more** every run stays in range. -/
theorem reachable_of_two_le (h : system.Reachable s) (hsize : 2 ≤ s.elementSize) :
    (system.restrict inRange).Reachable s := by
  suffices hall : 2 ≤ s.elementSize → (system.restrict inRange).Reachable s ∧ s.Wf ∧
      s.elementNum * s.elementSize < 2 ^ 31 from (hall hsize).1
  refine h.invariant (I := fun s => 2 ≤ s.elementSize → (system.restrict inRange).Reachable s ∧
    s.Wf ∧ s.elementNum * s.elementSize < 2 ^ 31) ?_ ?_
  · intro s hinit _
    refine ⟨.init hinit, (wf_of_init hinit).1, ?_⟩
    obtain ⟨num, elementSize, -, -, hbytes, hnew⟩ := hinit
    cases hnew
    exact hbytes
  · intro s c s' _ ih hnext hsize
    obtain ⟨hmay, ⟨⟩⟩ := Option.ite_none_right_eq_some.mp hnext
    rw [elementSize_call] at hsize ⊢
    obtain ⟨hreachable, wf, hbytes⟩ := ih hsize
    have hrange := wf.inRange_of_two_le hsize hbytes hmay
    have hstep : (system.restrict inRange).next s c = some (s.call c).1 :=
      (if_pos hrange).trans hnext
    exact ⟨hreachable.step hstep, (wf.call hmay hrange).wf, wf.bytes_call hbytes hmay hrange⟩

/-! ## More than `2 ^ 30` cells -/

/-- A stack of `n` cells of one byte, all of them zero. -/
def zeros (n : ℕ) (front num : ℤ) : StackS where
  array := { cells := List.replicate n [0], elementNum := n }
  elementSize := 1
  elementNum := n
  front := front
  num := num

section Zeros

variable {n : ℕ} {front num : ℤ} (hn : (n : ℤ) < 2 ^ 31) (hfront : 0 ≤ front) (hnum : 0 ≤ num)

include hn hfront hnum

theorem wf_zeros (hlt : front < n) (hle : num ≤ n) : (zeros n front num).Wf :=
  ⟨congrArg Nat.cast List.length_replicate, rfl, hn, hfront, hlt.le, fun _ => hlt, hnum, hle⟩

theorem zeros_push (hlt : front < n) (hroom : num < n) (hsum : front + num < 2 ^ 31) :
    system.next (zeros n front num) (.push true [0]) = some (zeros n front (num + 1)) := by
  have hisfull : (zeros n front num).oxStackIsfull = false := decide_eq_false hroom.ne
  have hmay : (zeros n front num).mayCall (.push true [0]) = true := by
    rw [mayCall, hisfull, Bool.not_false, Bool.true_or]
  have hpush : (zeros n front num).oxStackPush true [0] = (zeros n front (num + 1), true) := by
    rw [oxStackPush, hisfull, if_neg Bool.false_ne_true,
      (wf_zeros hn hfront hnum hlt hroom.le).pushInto_eq hroom hsum]
    simp only [zeros, List.set_replicate_self]
  change (if _ then _ else _) = _
  rw [if_pos hmay, call, hpush]
  rfl

theorem zeros_popfront (hlt : front + 1 < n) (hle : num + 1 ≤ n) :
    system.next (zeros n front (num + 1)) .popfront = some (zeros n (front + 1) num) := by
  have hdata : (zeros n front (num + 1)).oxStackFront = some [0] := by
    have hpos : 0 < (zeros n front (num + 1)).num := Int.lt_add_one_of_le hnum
    have hin : front < (zeros n front (num + 1)).array.elementNum := by
      change front < n
      omega
    rw [oxStackFront, if_pos hpos, ArrayS.oxArrayAt, if_pos ⟨hfront, hin⟩]
    exact List.getElem?_replicate_of_lt (show front.toNat < n by omega)
  have hpop : (zeros n front (num + 1)).oxStackPopfront = (zeros n (front + 1) num, some [0]) := by
    have hmod : (front + 1).tmod n = front + 1 := Int.tmod_eq_of_lt (by omega) hlt
    rw [oxStackPopfront, hdata]
    simp only [zeros]
    rw [int32_eq (by omega) (by omega), int32_eq (by omega) (by omega), hmod,
      Int.add_sub_cancel]
  change some ((zeros n front (num + 1)).oxStackPopfront.map id _).1 = _
  rw [hpop]
  rfl

theorem run_zeros_push (k : ℕ) (hlt : front < n) (hroom : num + k ≤ n)
    (hsum : front + num + k ≤ 2 ^ 31) :
    system.run (zeros n front num) (List.replicate k (.push true [0])) =
      some (zeros n front (num + k)) := by
  induction k with
  | zero => rw [Nat.cast_zero, Int.add_zero]; rfl
  | succ k ih =>
      push_cast at hroom hsum
      rw [List.replicate_succ', System.run_concat, ih (by omega) (by omega), Option.bind_some,
        zeros_push hn hfront (by omega) hlt (by omega) (by omega)]
      push_cast
      rw [Int.add_assoc]

theorem run_zeros_popfront (k : ℕ) (hlt : front + k < n) (hle : num + k ≤ n) :
    system.run (zeros n front (num + k)) (List.replicate k .popfront) =
      some (zeros n (front + k) num) := by
  induction k generalizing num with
  | zero => rw [Nat.cast_zero, Int.add_zero, Int.add_zero]; rfl
  | succ k ih =>
      push_cast at hlt hle ⊢
      have hih := ih (show 0 ≤ num + 1 by omega) (by omega) (by omega)
      rw [List.replicate_succ', System.run_concat, show num + (k + 1 : ℤ) = num + 1 + k by omega,
        hih, Option.bind_some, zeros_popfront hn (by omega) hnum (by omega) (by omega)]
      rw [Int.add_assoc]

end Zeros

theorem oxStackNew_eq_zeros (n : ℕ) : oxStackNew true n 1 = some (zeros n 0 0) := rfl

theorem ne_of_mem_contents_zeros {n : ℕ} {front num : ℤ} {data : Element}
    (h : data ∈ (zeros n front num).contents) : data ≠ [1] := by
  obtain ⟨i, -, rfl⟩ := List.mem_map.mp h
  simp only [zeros, List.getD_eq_getElem?_getD, List.getElem?_replicate]
  split
  · decide
  · decide

/-- The sum of the front and the number of elements wraps around, the index is negative and
nothing is written. -/
theorem zeros_push_lost {n : ℕ} (hn : n = 2 ^ 30 + 1) (data : Element) :
    (zeros n (2 ^ 30) (2 ^ 30)).call (.push true data) =
      (zeros n (2 ^ 30) (2 ^ 30 + 1), .bool true) := by
  have hcast : (n : ℤ) = 2 ^ 30 + 1 := by omega
  have hisfull : (zeros n (2 ^ 30) (2 ^ 30)).oxStackIsfull = false := by
    simp only [oxStackIsfull, zeros, hcast]
    decide
  -- As an `int`, `2 ^ 30 + 2 ^ 30` is `-2 ^ 31`, and the remainder has its sign.
  have hindex : (zeros n (2 ^ 30) (2 ^ 30)).index (2 ^ 30) = -(2 ^ 30 - 1) := by
    simp only [index, zeros, hcast]
    decide
  have hset : (zeros n (2 ^ 30) (2 ^ 30)).array.oxArraySet (-(2 ^ 30 - 1)) data =
      ((zeros n (2 ^ 30) (2 ^ 30)).array, false) := by
    rw [ArrayS.oxArraySet, ArrayS.oxArrayAt, if_neg (by omega)]
  have hpush : (zeros n (2 ^ 30) (2 ^ 30)).pushInto data =
      (zeros n (2 ^ 30) (2 ^ 30 + 1), true) := by
    rw [pushInto, hisfull, if_neg Bool.false_ne_true]
    change ({ zeros n (2 ^ 30) (2 ^ 30) with
      array := ((zeros n (2 ^ 30) (2 ^ 30)).array.oxArraySet
        ((zeros n (2 ^ 30) (2 ^ 30)).index (2 ^ 30)) data).1
      num := int32 (2 ^ 30 + 1) }, true) = _
    rw [hindex, hset, int32_eq (by decide) (by decide)]
    rfl
  rw [call, oxStackPush, hisfull, if_neg Bool.false_ne_true, hpush]
  rfl

theorem run_to_overflow {n : ℕ} (hn : n = 2 ^ 30 + 1) :
    system.run (zeros n 0 0)
        (List.replicate n (.push true [0]) ++
          (List.replicate (2 ^ 30) .popfront ++ List.replicate (2 ^ 30 - 1) (.push true [0]))) =
      some (zeros n (2 ^ 30) (2 ^ 30)) := by
  have hfill := run_zeros_push (n := n) (by omega) le_rfl le_rfl n (by omega) (by omega) (by omega)
  have hempty := run_zeros_popfront (n := n) (by omega) le_rfl (show (0 : ℤ) ≤ 1 by decide)
    (2 ^ 30) (by omega) (by omega)
  have hrefill := run_zeros_push (n := n) (by omega) (show (0 : ℤ) ≤ 2 ^ 30 by decide)
    (show (0 : ℤ) ≤ 1 by decide) (2 ^ 30 - 1) (by omega) (by omega) (by omega)
  -- The three runs meet: full, then one element at the last cell, then `2 ^ 30` of them.
  have hfull : 0 + (n : ℤ) = 1 + ((2 ^ 30 : ℕ) : ℤ) := by omega
  have hfront : 0 + ((2 ^ 30 : ℕ) : ℤ) = 2 ^ 30 := by omega
  have hnum : 1 + ((2 ^ 30 - 1 : ℕ) : ℤ) = 2 ^ 30 := by omega
  rw [System.run_append, hfill, Option.bind_some, System.run_append, hfull, hempty,
    Option.bind_some, hfront, hrefill, hnum]

/-- A stack of `2 ^ 30 + 1` bytes is filled, all elements but one are popped, and as many are
pushed again: of the next element `push` says that it is in the stack, but it is not. -/
theorem not_stack_refines_deque :
    let n : ℕ := 2 ^ 30 + 1
    ∃ start s, oxStackNew true n 1 = some start ∧
      system.run start
          (List.replicate n (.push true [0]) ++
            (List.replicate (2 ^ 30) .popfront ++ List.replicate (2 ^ 30 - 1) (.push true [0]))) =
        some s ∧
      s.mayCall (.push true [1]) = true ∧ (s.call (.push true [1])).2 = .bool true ∧
      (s.call (.push true [1])).1.contents ≠ s.contents ++ [[1]] := by
  intro n
  refine ⟨zeros n 0 0, zeros n (2 ^ 30) (2 ^ 30), oxStackNew_eq_zeros n, run_to_overflow rfl,
    ?_, ?_, ?_⟩
  · rfl
  · rw [zeros_push_lost rfl]
  · rw [zeros_push_lost rfl]
    intro heq
    -- All cells are zero still, so the element is not among the contents.
    have hmem : [1] ∈ (zeros n (2 ^ 30) (2 ^ 30)).contents ++ [[1]] :=
      List.mem_append_right _ List.mem_cons_self
    rw [← heq] at hmem
    exact ne_of_mem_contents_zeros hmem rfl

end StackS

end Brynet
