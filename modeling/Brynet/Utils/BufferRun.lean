import Brynet.Lib.Transition
import Brynet.Utils.Buffer

/-!
# Sequences of buffer operations

`ox_buffer_write` is all or nothing on a well formed buffer.  The two operations
that move a position by an argument test it against `data_len` only, and after
the addition: `ox_buffer_addreadpos` accepts a read position behind the write
position, and `ox_buffer_addwritepos` accepts a sum that wrapped around below the
read position.  `Within` says, on the state before a step, that it does neither.
-/

namespace Brynet

open MachineInt Memory Transition

namespace Buffer

/-- The room that `ox_buffer_write` computes for its second branch. -/
theorem Wf.leftLen {buf : Buffer} (wf : buf.Wf) :
    sizeSub buf.dataLen buf.oxBufferGetreadvalidcount =
      buf.dataLen - (buf.writePos - buf.readPos) := by
  rw [wf.getreadvalidcount]
  exact sizeSub_eq ((Nat.sub_le _ _).trans wf.writePos_le) wf.dataLen_lt

/-- A write that does not fit leaves the buffer as it is. -/
theorem Wf.write_false {buf : Buffer} (wf : buf.Wf) {bytes : List UInt8}
    (hfull : buf.dataLen - (buf.writePos - buf.readPos) < bytes.length) :
    buf.oxBufferWrite bytes = (buf, false) := by
  have hdirect : ¬bytes.length ≤ buf.oxBufferGetwritevalidcount := by
    rw [wf.getwritevalidcount]
    have hread := wf.readPos_le
    omega
  have hleft : ¬bytes.length ≤ sizeSub buf.dataLen buf.oxBufferGetreadvalidcount := by
    rw [wf.leftLen]
    exact Nat.not_le.mpr hfull
  rw [oxBufferWrite, if_neg hdirect]
  exact if_neg hleft

/-- A write that fits returns `true`. -/
theorem Wf.write_true {buf : Buffer} (wf : buf.Wf) {bytes : List UInt8}
    (hfit : bytes.length ≤ buf.dataLen - (buf.writePos - buf.readPos)) :
    (buf.oxBufferWrite bytes).2 = true := by
  rw [oxBufferWrite]
  by_cases hdirect : bytes.length ≤ buf.oxBufferGetwritevalidcount
  · rw [if_pos hdirect]
  · rw [← wf.leftLen] at hfit
    simp only [if_neg hdirect, if_pos hfit]

/-- **A write is all or nothing.**  On a well formed buffer it succeeds exactly when
the bytes fit beside the readable ones; it then appends them, and otherwise changes
nothing.  When it moves to the head first, the self-call finds the room it needs, so
it does not call itself again. -/
theorem oxBufferWrite_all_or_nothing (buf : Buffer) (wf : buf.Wf) (bytes : List UInt8) :
    ((buf.oxBufferWrite bytes).2 = true ↔
      bytes.length ≤ buf.dataLen - (buf.writePos - buf.readPos)) ∧
    ((buf.oxBufferWrite bytes).2 = true →
      bytes.length ≤ buf.oxBufferAdjusttoHead.oxBufferGetwritevalidcount ∧
      (buf.oxBufferWrite bytes).1.readable = buf.readable ++ bytes) ∧
    ((buf.oxBufferWrite bytes).2 = false → (buf.oxBufferWrite bytes).1 = buf) := by
  by_cases hfit : bytes.length ≤ buf.dataLen - (buf.writePos - buf.readPos)
  · have htrue := wf.write_true hfit
    refine ⟨⟨fun _ => hfit, fun _ => htrue⟩, fun _ => ⟨?_, (wf.write hfit).2.1⟩, fun hfalse => ?_⟩
    · rw [getwritevalidcount_adjusttoHead, wf.leftLen]
      exact hfit
    · rw [htrue] at hfalse
      cases hfalse
  · rw [wf.write_false (Nat.lt_of_not_le hfit)]
    simp [hfit]

/-- Two bytes readable in a block of four, and three more do not fit. -/
theorem oxBufferWrite_all_or_nothing_four :
    ((oxBufferWrite ⟨[0, 7, 8, 0], 3, 1⟩ [1, 2, 3]).2 = true ↔ 3 ≤ 4 - (3 - 1)) :=
  (oxBufferWrite_all_or_nothing ⟨[0, 7, 8, 0], 3, 1⟩ ⟨by decide, by decide, by decide⟩ [1, 2, 3]).1

/-! ## Runs -/

/-- An operation on a buffer, with its arguments. -/
inductive Action
  | write (bytes : List UInt8)
  | addwritepos (value : UInt64)
  | addreadpos (value : UInt64)
  | adjusttoHead
  | init
deriving DecidableEq

/-- The buffer after an operation. -/
def apply (buf : Buffer) : Action → Buffer
  | .write bytes => (buf.oxBufferWrite bytes).1
  | .addwritepos value => buf.oxBufferAddwritepos value.toNat
  | .addreadpos value => buf.oxBufferAddreadpos value.toNat
  | .adjusttoHead => buf.oxBufferAdjusttoHead
  | .init => buf.oxBufferInit

/-- Sequences of operations on a buffer from `ox_buffer_new`. -/
def system (malloc : Allocator) : System Buffer Action where
  init buf := ∃ size, oxBufferNew malloc size = some buf
  next buf a := some (buf.apply a)

/-- The new read position is not between the write position and the end of the block,
and the new write position does not wrap around below the read position. -/
def Within (buf : Buffer) : Action → Bool
  | .addreadpos value =>
      buf.readPos + value.toNat ≤ buf.writePos ∨ buf.dataLen < buf.readPos + value.toNat
  | .addwritepos value =>
      buf.writePos + value.toNat < sizeMod ∨
        sizeMod + buf.readPos ≤ buf.writePos + value.toNat
  | _ => true

/-- The sum of a position and an argument: it stays, or it wraps around once and is
then below the position. -/
theorem sizeAdd_cases {pos : ℕ} (hpos : pos < sizeMod) (value : UInt64) :
    (pos + value.toNat < sizeMod ∧ sizeAdd pos value.toNat = pos + value.toNat) ∨
    (sizeMod ≤ pos + value.toNat ∧ sizeAdd pos value.toNat = pos + value.toNat - sizeMod ∧
      sizeAdd pos value.toNat < pos) := by
  have hvalue : value.toNat < sizeMod := value.toNat_lt
  rcases Nat.lt_or_ge (pos + value.toNat) sizeMod with hlt | hge
  · exact .inl ⟨hlt, sizeAdd_eq hlt⟩
  · have hwrap : sizeAdd pos value.toNat = pos + value.toNat - sizeMod := by
      rw [sizeAdd, Nat.mod_eq_sub_mod hge]
      apply Nat.mod_eq_of_lt
      omega
    exact .inr ⟨hge, hwrap, by omega⟩

/-- Moving the read position keeps the invariant exactly when the move is within. -/
theorem Wf.addreadpos_iff {buf : Buffer} (wf : buf.Wf) (value : UInt64) :
    (buf.oxBufferAddreadpos value.toNat).Wf ↔ buf.Within (.addreadpos value) = true := by
  obtain ⟨hlen, hwrite, hread⟩ := wf
  simp only [Within, decide_eq_true_eq, oxBufferAddreadpos]
  have hsum := sizeAdd_cases (by omega : buf.readPos < sizeMod) value
  by_cases hle : sizeAdd buf.readPos value.toNat ≤ buf.dataLen
  · rw [if_pos hle]
    refine ⟨fun wf' => ?_, fun hwithin => ⟨hlen, hwrite, ?_⟩⟩
    · have hread' : sizeAdd buf.readPos value.toNat ≤ buf.writePos := wf'.readPos_le
      omega
    · show sizeAdd buf.readPos value.toNat ≤ buf.writePos
      omega
  · rw [if_neg hle]
    refine ⟨fun _ => ?_, fun _ => ⟨hlen, hwrite, hread⟩⟩
    omega

/-- Moving the write position keeps the invariant exactly when the move is within. -/
theorem Wf.addwritepos_iff {buf : Buffer} (wf : buf.Wf) (value : UInt64) :
    (buf.oxBufferAddwritepos value.toNat).Wf ↔ buf.Within (.addwritepos value) = true := by
  obtain ⟨hlen, hwrite, hread⟩ := wf
  simp only [Within, decide_eq_true_eq, oxBufferAddwritepos]
  have hsum := sizeAdd_cases (by omega : buf.writePos < sizeMod) value
  by_cases hle : sizeAdd buf.writePos value.toNat ≤ buf.dataLen
  · rw [if_pos hle]
    refine ⟨fun wf' => ?_, fun hwithin => ⟨hlen, hle, ?_⟩⟩
    · have hread' : buf.readPos ≤ sizeAdd buf.writePos value.toNat := wf'.readPos_le
      omega
    · show buf.readPos ≤ sizeAdd buf.writePos value.toNat
      omega
  · rw [if_neg hle]
    refine ⟨fun _ => ?_, fun _ => ⟨hlen, hwrite, hread⟩⟩
    omega

/-- No operation on a well formed buffer changes the size of its block. -/
theorem Wf.dataLen_apply {buf : Buffer} (wf : buf.Wf) (a : Action) :
    (buf.apply a).dataLen = buf.dataLen := by
  cases a with
  | write bytes =>
      show (buf.oxBufferWrite bytes).1.dataLen = buf.dataLen
      by_cases hfit : bytes.length ≤ buf.dataLen - (buf.writePos - buf.readPos)
      · exact (wf.write hfit).2.2
      · rw [wf.write_false (Nat.lt_of_not_le hfit)]
  | addwritepos value =>
      simp only [apply, oxBufferAddwritepos]
      split <;> rfl
  | addreadpos value =>
      simp only [apply, oxBufferAddreadpos]
      split <;> rfl
  | adjusttoHead => exact dataLen_oxBufferAdjusttoHead buf
  | init => rfl

/-- **One step.**  An operation on a well formed buffer keeps it well formed exactly
when it is within. -/
theorem Wf.apply_iff {buf : Buffer} (wf : buf.Wf) (a : Action) :
    (buf.apply a).Wf ↔ buf.Within a = true := by
  cases a with
  | write bytes =>
      refine ⟨fun _ => rfl, fun _ => ?_⟩
      by_cases hfit : bytes.length ≤ buf.dataLen - (buf.writePos - buf.readPos)
      · exact (wf.write hfit).1
      · have hfalse := wf.write_false (Nat.lt_of_not_le hfit)
        show (buf.oxBufferWrite bytes).1.Wf
        rw [hfalse]
        exact wf
  | addwritepos value => exact wf.addwritepos_iff value
  | addreadpos value => exact wf.addreadpos_iff value
  | adjusttoHead => exact ⟨fun _ => rfl, fun _ => wf.adjusttoHead.1⟩
  | init => exact ⟨fun _ => rfl, fun _ => ⟨wf.dataLen_lt, Nat.zero_le _, Nat.le_refl _⟩⟩

/-- **Whole runs.**  A run whose steps are all within stays well formed. -/
theorem wf_of_reachable {malloc : Allocator} {buf : Buffer}
    (h : ((system malloc).restrict Within).Reachable buf) : buf.Wf := by
  apply h.invariant
  · rintro buf ⟨size, hnew⟩
    exact (oxBufferNew_spec hnew).1
  · intro buf a next _ wf hnext
    obtain ⟨hwithin, hnext⟩ := System.next_of_restrict hnext
    obtain rfl : buf.apply a = next := Option.some.inj hnext
    exact (wf.apply_iff a).mpr hwithin

/-- **When the positions stay in order.**  In a run whose steps are all within,
`read_pos ≤ write_pos ≤ data_len` and neither count wraps around; a step that is not
within breaks it. -/
theorem positions_within (malloc : Allocator) (buf : Buffer)
    (h : ((system malloc).restrict Within).Reachable buf) :
    (buf.readPos ≤ buf.writePos ∧ buf.writePos ≤ buf.dataLen ∧
      buf.oxBufferGetreadvalidcount = buf.writePos - buf.readPos ∧
      buf.oxBufferGetwritevalidcount = buf.dataLen - buf.writePos) ∧
    ∀ a next, (system malloc).next buf a = some next →
      (next.readPos ≤ next.writePos ∧ next.writePos ≤ next.dataLen ↔ buf.Within a = true) := by
  have wf := wf_of_reachable h
  refine ⟨⟨wf.readPos_le, wf.writePos_le, wf.getreadvalidcount, wf.getwritevalidcount⟩, ?_⟩
  intro a next hnext
  obtain rfl : buf.apply a = next := Option.some.inj hnext
  rw [← wf.apply_iff a]
  refine ⟨fun ⟨hread, hwrite⟩ => ⟨?_, hwrite, hread⟩, fun wf' => ⟨wf'.readPos_le, wf'.writePos_le⟩⟩
  rw [wf.dataLen_apply a]
  exact wf.dataLen_lt

/-- Two bytes written by the kernel, one of them consumed. -/
theorem positions_within_consume :
    ∃ buf, ((system .unlimited).restrict Within).Reachable buf ∧
      buf.oxBufferGetreadvalidcount = 1 := by
  have hreach : ((system .unlimited).restrict Within).Reachable ⟨[0, 0, 0, 0], 2, 1⟩ := by
    refine @System.reachable_of_run _ _ ((system .unlimited).restrict Within)
      ⟨[0, 0, 0, 0], 0, 0⟩ _ ⟨4, by decide⟩ [.addwritepos 2, .addreadpos 1] ?_
    decide
  exact ⟨_, hreach, (positions_within .unlimited _ hreach).1.2.2.1⟩

/-- One byte of an empty buffer is consumed: the read position is behind the write
position, and `2 ^ 64 - 1` bytes are reported as readable. -/
theorem not_positions_within :
    ¬∀ malloc buf, (system malloc).Reachable buf →
      (buf.readPos ≤ buf.writePos ∧ buf.writePos ≤ buf.dataLen) ∧
        buf.oxBufferGetreadvalidcount ≤ buf.dataLen := by
  intro h
  have hreach : (system .unlimited).Reachable ⟨[0, 0, 0, 0], 0, 1⟩ := by
    refine @System.reachable_of_run _ _ (system .unlimited) ⟨[0, 0, 0, 0], 0, 0⟩ _
      ⟨4, by decide⟩ [.addreadpos 1] ?_
    decide
  exact absurd (h _ _ hreach) (by decide)

end Buffer

end Brynet
