import Brynet.Net.FlushRun

/-!
# The two flush functions agree

A socket that takes `n` more bytes and then would block meets both flush functions
at different places: `normalFlush` stops at the end of its buffer, `quickFlush`
after `MAX_IOVEC` packets.  Where `n` falls inside, at or between these batches does
not matter in the end.  Both functions end in `settled n`, the state that a single
erase loop over `n` bytes leaves, blocked if there were more bytes than that.

The proof is by strong induction on the bytes that are left (`ends_settled`).  A turn of
either function takes its whole batch, or ends the flush; what it takes may be taken off
in one portion with all that follows (`settled_advanced`), which is why the batches do
not show in the result.
-/

namespace Brynet

open MachineInt

/-- A socket that takes `budget` more bytes and then would block. -/
def budgetKernel : Kernel ℕ := fun budget wanted =>
  if budget = 0 then (.wouldBlock, 0)
  else (.accepted (min wanted budget), budget - min wanted budget)

/-- Every packet has a byte left to send. -/
def Waiting (packets : List PendingPacket) : Prop := ∀ packet ∈ packets, 0 < packet.left

variable {packets : List PendingPacket}

theorem Waiting.eraseLoop (h : Waiting packets) (n removed : ℕ) (fired : List ℕ) :
    Waiting (eraseLoop n removed fired packets).packets := by
  induction packets generalizing n removed fired with
  | nil => simp [Waiting, Brynet.eraseLoop]
  | cons packet rest ih =>
      obtain ⟨hpacket, hrest⟩ := List.forall_mem_cons.mp h
      unfold Brynet.eraseLoop
      split
      next hlt => exact List.forall_mem_cons.mpr ⟨Nat.sub_pos_of_lt hlt, hrest⟩
      next => exact ih hrest _ _ _

/-- An erase loop without bytes erases nothing. -/
theorem Waiting.eraseLoop_zero (h : Waiting packets) (removed : ℕ) (fired : List ℕ) :
    Brynet.eraseLoop 0 removed fired packets = ⟨packets, removed, fired⟩ := by
  cases packets with
  | nil => rfl
  | cons packet rest => exact if_pos (List.forall_mem_cons.mp h).1

theorem Waiting.leftSum_pos (h : Waiting packets) (hne : packets ≠ []) : 0 < leftSum packets := by
  cases packets with
  | nil => contradiction
  | cons packet rest =>
      rw [leftSum_cons]
      exact Nat.add_pos_left (List.forall_mem_cons.mp h).1 _

namespace FlushPath

variable (path : FlushPath) {ds : DataSocket}

/-- The front packet is in the batch. -/
theorem batch_ne_nil (h : packets ≠ []) : path.batch packets ≠ [] := by
  cases packets with
  | nil => contradiction
  | cons packet rest =>
      cases path with
      | quick => simp [batch, DataSocket.maxIovec]
      | normal =>
          simp only [batch]
          split
          next => simp
          next hfits =>
            simp only [mergeBatch, Nat.zero_add, if_neg hfits]
            exact List.cons_ne_nil _ _

theorem wanted_pos (hle : LeftLe ds.mSendList) (hwaiting : Waiting ds.mSendList)
    (hne : ds.mSendList ≠ []) : 0 < path.wanted ds := by
  have hsub := (path.batch_isPrefix ds.mSendList).subset
  have hbatch : Waiting (path.batch ds.mSendList) := fun packet hmem => hwaiting packet (hsub hmem)
  rw [path.wanted_eq hle]
  exact hbatch.leftSum_pos (path.batch_ne_nil hne)

theorem leaves_eq (hle : LeftLe ds.mSendList) (hwaiting : Waiting ds.mSendList) :
    path.leaves ds = ds.mSendList.isEmpty := by
  cases path with
  | quick => rfl
  | normal =>
      cases hempty : ds.mSendList.isEmpty with
      | true => simp [leaves, hempty]
      | false =>
          have hne : ds.mSendList ≠ [] := by simpa using hempty
          have hpos : 0 < ds.waitSend.length := normal.wanted_pos hle hwaiting hne
          simp [leaves, hempty, List.length_pos_iff.mp hpos]

end FlushPath

namespace Flush

variable {path : FlushPath} {s : Flush}

/-- Where a flush ends when the socket takes `n` bytes: after one erase loop, and
blocked if this was not everything. -/
def settled (n : ℕ) (s : Flush) : Flush :=
  let erased := s.erased n
  { erased with
    ds := if n < leftSum s.ds.mSendList then erased.ds.blockWrite else erased.ds
    pc := .done
    accepted := s.accepted ++ s.ds.unsent.take n }

/-- The state after a turn in which everything was accepted. -/
def advanced (n : ℕ) (s : Flush) : Flush :=
  { s.erased n with pc := .turn, accepted := s.accepted ++ s.ds.unsent.take n }

/-- The bytes may be taken in two portions. -/
theorem settled_advanced (hle : LeftLe s.ds.mSendList) {a n : ℕ} (ha : a ≤ n)
    (hsum : a ≤ leftSum s.ds.mSendList) : settled (n - a) (s.advanced a) = settled n s := by
  have hloop := eraseLoop_add a (n - a) s.removed s.fired s.ds.mSendList
  rw [Nat.add_sub_cancel' ha] at hloop
  have hleft := leftSum_eraseLoop a s.removed s.fired s.ds.mSendList
  have hblocked : (n - a < leftSum (s.advanced a).ds.mSendList) ↔ n < leftSum s.ds.mSendList := by
    show n - a < leftSum (eraseLoop a s.removed s.fired s.ds.mSendList).packets ↔ _
    omega
  have hunsent : (s.advanced a).ds.unsent = s.ds.unsent.drop a :=
    unsent_eraseLoop hle a s.removed s.fired
  have hbytes : s.ds.unsent.take a ++ (s.ds.unsent.drop a).take (n - a) = s.ds.unsent.take n := by
    rw [← List.take_add, Nat.add_sub_cancel' ha]
  have haccepted : (s.advanced a).accepted ++ (s.advanced a).ds.unsent.take (n - a) =
      s.accepted ++ s.ds.unsent.take n := by
    rw [hunsent, ← hbytes, ← List.append_assoc]
    rfl
  have herased : (s.advanced a).erased (n - a) = { s.advanced a with
      ds := (s.erased n).ds, removed := (s.erased n).removed, fired := (s.erased n).fired } := by
    simp only [erased, hloop]
    rfl
  simp only [settled, herased, hblocked, haccepted]
  rfl

/-- With nothing to send, nothing happens. -/
theorem settled_of_nil (n : ℕ) (h : s.ds.mSendList = []) : settled n s = { s with pc := .done } := by
  have hds : ({ s.ds with mSendList := [] } : DataSocket) = s.ds := by rw [← h]
  have hunsent : s.ds.unsent = [] := by rw [DataSocket.unsent, h, List.map_nil, List.flatten_nil]
  simp only [settled, erased, h, eraseLoop, hds, hunsent, leftSum, List.map_nil, List.sum_nil,
    List.take_nil, List.append_nil]
  rfl

/-- A socket that takes nothing is blocked. -/
theorem settled_zero (hwaiting : Waiting s.ds.mSendList) (hne : s.ds.mSendList ≠ []) :
    settled 0 s = { s with ds := s.ds.blockWrite, pc := .done } := by
  simp only [settled, erased, hwaiting.eraseLoop_zero, if_pos (hwaiting.leftSum_pos hne),
    List.take_zero, List.append_nil]

/-- A turn that is answered with `count` bytes, all that was wanted or less. -/
theorem iterate_accepted {budget budget' count : ℕ} (hpc : s.pc = .turn)
    (hle : LeftLe s.ds.mSendList) (hleaves : path.leaves s.ds = false)
    (hsmall : path.wanted s.ds < 2 ^ 31) (hcount : count ≤ path.wanted s.ds)
    (hanswer : budgetKernel budget (path.wanted s.ds) = (.accepted count, budget')) :
    ∃ m, (step path budgetKernel)^[m] (budget, s) =
      (budget', (s.advanced count).afterErase (decide (count = path.wanted s.ds))) := by
  obtain ⟨m, hm⟩ := iterate_turn hpc hleaves hanswer
  have hbytes : (path.offered s.ds).take count = s.ds.unsent.take count := by
    rw [path.offered_eq hsmall, List.take_take, Nat.min_eq_left hcount]
  rw [hbytes, path.full_eq hle hsmall hcount] at hm
  exact ⟨m, hm.trans (congrArg (Prod.mk budget') (afterErase_congr _ rfl))⟩

/-- **Both functions settle.**  The induction is on the bytes that are left: a turn
either sends all it wants, and the rest is settled later, or blocks. -/
theorem ends_settled (n : ℕ) (hpc : s.pc = .turn) (hle : LeftLe s.ds.mSendList)
    (hwaiting : Waiting s.ds.mSendList) (hsum : leftSum s.ds.mSendList < 2 ^ 31) :
    Ends path budgetKernel (n, s) (settled n s) := by
  induction hm : leftSum s.ds.mSendList using Nat.strong_induction_on generalizing s n with
  | _ m ih =>
    by_cases hempty : s.ds.mSendList = []
    -- Nothing is left to send.
    · have hleaves : path.leaves s.ds = true := by
        rw [path.leaves_eq hle hwaiting, hempty]
        rfl
      have hstep : (step path budgetKernel)^[1] (n, s) = (n, settled n s) := by
        simp only [Function.iterate_one, step, hpc, hleaves, if_true, settled_of_nil n hempty]
      exact (ends_of_iterate hstep).mpr (ends_of_done rfl)
    · have hleaves : path.leaves s.ds = false := by
        rw [path.leaves_eq hle hwaiting]
        simpa using hempty
      have hpos := path.wanted_pos hle hwaiting hempty
      have hwanted := path.wanted_le hle
      have hsmall : path.wanted s.ds < 2 ^ 31 := hwanted.trans_lt hsum
      rcases Nat.eq_zero_or_pos n with rfl | hn
      · -- The socket would block.
        have hstep : (step path budgetKernel)^[1] (0, s) = (0, settled 0 s) := by
          rw [settled_zero hwaiting hempty]
          simp [step, hpc, hleaves, budgetKernel, afterSend, finish]
        exact (ends_of_iterate hstep).mpr (ends_of_done rfl)
      · rcases Nat.lt_or_ge n (path.wanted s.ds) with hpart | hall
        · -- The bytes end inside this batch.
          have hanswer : budgetKernel n (path.wanted s.ds) = (.accepted n, 0) := by
            simp [budgetKernel, hn.ne', Nat.min_eq_right hpart.le]
          obtain ⟨i, hi⟩ := iterate_accepted hpc hle hleaves hsmall hpart.le hanswer
          have hend : (s.advanced n).afterErase (decide (n = path.wanted s.ds)) = settled n s := by
            rw [decide_eq_false hpart.ne]
            simp only [afterErase, settled, if_pos (hpart.trans_le hwanted)]
            simp [finish, advanced, erased]
          rw [hend] at hi
          exact (ends_of_iterate hi).mpr (ends_of_done rfl)
        · -- The whole batch is taken.
          have hanswer : budgetKernel n (path.wanted s.ds) =
              (.accepted (path.wanted s.ds), n - path.wanted s.ds) := by
            simp [budgetKernel, hn.ne', Nat.min_eq_left hall]
          obtain ⟨i, hi⟩ := iterate_accepted hpc hle hleaves hsmall le_rfl hanswer
          have hturn : (s.advanced (path.wanted s.ds)).afterErase
              (decide (path.wanted s.ds = path.wanted s.ds)) = s.advanced (path.wanted s.ds) := by
            rw [decide_eq_true rfl]
            rfl
          rw [hturn] at hi
          have hleft := leftSum_eraseLoop (path.wanted s.ds) s.removed s.fired s.ds.mSendList
          have hrest := @ih (m - path.wanted s.ds) (by omega) (s.advanced (path.wanted s.ds))
            (n - path.wanted s.ds) rfl (hle.eraseLoop _ _ _) (hwaiting.eraseLoop _ _ _)
            (by show leftSum (eraseLoop _ _ _ _).packets < _; omega) (hleft.trans (by rw [hm]))
          rw [settled_advanced hle hall hwanted] at hrest
          exact (ends_of_iterate hi).mpr hrest

/-- **The two flush functions agree.**  On a send list whose packets all have a byte
left, with less than `2 ^ 31` bytes in all, and a socket that takes `n` bytes and then
would block, `quickFlush` and `normalFlush` end, and in the same state: they have
delivered the same bytes (`accepted`) and called the same complete callbacks in the same
order (`fired`), and leave the same send list and the same `mCanWrite`. -/
theorem flush_paths_agree (n : ℕ) (ds : DataSocket) (hle : LeftLe ds.mSendList)
    (hwaiting : Waiting ds.mSendList) (hsum : leftSum ds.mSendList < 2 ^ 31) :
    ∃ s, (∀ s', Ends .quick budgetKernel (n, call ds) s' ↔ s' = s) ∧
      ∀ s', Ends .normal budgetKernel (n, call ds) s' ↔ s' = s := by
  cases hcall : !ds.mCanWrite || ds.mSocket.isNone with
  | true =>
      -- `flush` returns without calling either function.
      have hdone : (call ds).pc = .done := by simp only [call, hcall, if_true]
      exact ⟨call ds, fun _ => ends_iff_eq (ends_of_done hdone),
        fun _ => ends_iff_eq (ends_of_done hdone)⟩
  | false =>
      have hturn : (call ds).pc = .turn := by
        simp only [call, hcall, Bool.false_eq_true, if_false]
      exact ⟨settled n (call ds), fun _ => ends_iff_eq (ends_settled n hturn hle hwaiting hsum),
        fun _ => ends_iff_eq (ends_settled n hturn hle hwaiting hsum)⟩

/-- The second packet is in the way of the third byte. -/
theorem flush_paths_agree_two_packets :
    ∃ s, Ends .quick budgetKernel (3, call { idleSocket with
        mSendList := [⟨[1, 2], 2, true⟩, ⟨[3, 4], 2, true⟩] }) s ∧
      Ends .normal budgetKernel (3, call { idleSocket with
        mSendList := [⟨[1, 2], 2, true⟩, ⟨[3, 4], 2, true⟩] }) s := by
  obtain ⟨s, hquick, hnormal⟩ := flush_paths_agree 3 { idleSocket with
    mSendList := [⟨[1, 2], 2, true⟩, ⟨[3, 4], 2, true⟩] } (by simp [LeftLe]) (by simp [Waiting])
    (by decide)
  exact ⟨s, (hquick s).mpr rfl, (hnormal s).mpr rfl⟩

end Flush

end Brynet
