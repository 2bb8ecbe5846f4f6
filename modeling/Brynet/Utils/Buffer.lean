import Brynet.Lib.MachineInt
import Brynet.Lib.Memory

/-!
# The byte buffer of `utils/buffer.c`

A buffer is a block of `data_len` bytes with a write and a read position.  All
positions are `size_t` and every sum or difference of them is taken modulo
`2 ^ 64`, as the source does; `Buffer.Wf` is the invariant under which none of
them wraps, and `readable` the bytes between the two positions.
-/

namespace Brynet

open MachineInt Memory

/-- `struct buffer_s`.  The block at `data` always has exactly `data_len`
bytes, so the length is not a field of its own. -/
structure Buffer where
  data : List UInt8
  writePos : ℕ
  readPos : ℕ
deriving Repr, DecidableEq

namespace Buffer

/-- The field `data_len`. -/
def dataLen (buf : Buffer) : ℕ := buf.data.length

/-- `ox_buffer_new`: `none` is the null pointer of a refused allocation.  The
bytes of a fresh block are unspecified and never read; they are zero here. -/
def oxBufferNew (malloc : Allocator) (bufferSize : ℕ) : Option Buffer :=
  if malloc.grants bufferSize then
    some { data := List.replicate bufferSize 0, writePos := 0, readPos := 0 }
  else none

def oxBufferGetreadvalidcount (buf : Buffer) : ℕ := sizeSub buf.writePos buf.readPos

def oxBufferGetwritevalidcount (buf : Buffer) : ℕ := sizeSub buf.dataLen buf.writePos

def oxBufferGetsize (buf : Buffer) : ℕ := buf.dataLen

def oxBufferAdjusttoHead (buf : Buffer) : Buffer :=
  if buf.readPos ≤ 0 then buf
  else
    let len := buf.oxBufferGetreadvalidcount
    { data := if 0 < len then blit buf.data 0 (slice buf.data buf.readPos len) else buf.data
      readPos := 0
      writePos := len }

def oxBufferInit (buf : Buffer) : Buffer := { buf with readPos := 0, writePos := 0 }

def oxBufferAddwritepos (buf : Buffer) (value : ℕ) : Buffer :=
  let temp := sizeAdd buf.writePos value
  if temp ≤ buf.dataLen then { buf with writePos := temp } else buf

def oxBufferAddreadpos (buf : Buffer) (value : ℕ) : Buffer :=
  let temp := sizeAdd buf.readPos value
  if temp ≤ buf.dataLen then { buf with readPos := temp } else buf

/-- Bytes stored at `ox_buffer_getwriteptr`, by `memcpy` or by the kernel. -/
def store (buf : Buffer) (bytes : List UInt8) : Buffer :=
  { buf with data := blit buf.data buf.writePos bytes }

@[simp] theorem dataLen_oxBufferAdjusttoHead (buf : Buffer) :
    buf.oxBufferAdjusttoHead.dataLen = buf.dataLen := by
  simp only [oxBufferAdjusttoHead]
  split
  · rfl
  · simp only [dataLen]
    split
    · apply length_blit
      simp only [slice, List.length_take, List.length_drop]
      omega
    · rfl

/-- Moving to the head turns all the room into writable room, whatever the
positions are. -/
theorem getwritevalidcount_adjusttoHead (buf : Buffer) :
    buf.oxBufferAdjusttoHead.oxBufferGetwritevalidcount =
      sizeSub buf.dataLen buf.oxBufferGetreadvalidcount := by
  unfold oxBufferGetwritevalidcount
  rw [dataLen_oxBufferAdjusttoHead]
  by_cases hread : buf.readPos ≤ 0
  · have hzero : buf.readPos = 0 := by omega
    simp [oxBufferAdjusttoHead, oxBufferGetreadvalidcount, hzero, sizeSub]
  · simp [oxBufferAdjusttoHead, hread]

/-- `ox_buffer_write`: the new buffer and the result.  The self-call comes after
moving to the head, so it takes the direct branch; its result is ignored. -/
def oxBufferWrite (buf : Buffer) (bytes : List UInt8) : Buffer × Bool :=
  if bytes.length ≤ buf.oxBufferGetwritevalidcount then
    ((buf.store bytes).oxBufferAddwritepos bytes.length, true)
  else
    let leftLen := sizeSub buf.dataLen buf.oxBufferGetreadvalidcount
    if bytes.length ≤ leftLen then
      ((oxBufferWrite buf.oxBufferAdjusttoHead bytes).1, true)
    else (buf, false)
termination_by if bytes.length ≤ buf.oxBufferGetwritevalidcount then 0 else 1
decreasing_by
  rename_i hdirect hleft
  rw [getwritevalidcount_adjusttoHead, if_pos hleft, if_neg hdirect]
  exact Nat.zero_lt_one

/-! ## The invariant -/

/-- No position of the buffer has wrapped around. -/
structure Wf (buf : Buffer) : Prop where
  dataLen_lt : buf.dataLen < sizeMod
  writePos_le : buf.writePos ≤ buf.dataLen
  readPos_le : buf.readPos ≤ buf.writePos

/-- The bytes written and not yet consumed. -/
def readable (buf : Buffer) : List UInt8 :=
  slice buf.data buf.readPos (buf.writePos - buf.readPos)

namespace Wf

variable {buf : Buffer}

theorem getreadvalidcount (wf : buf.Wf) :
    buf.oxBufferGetreadvalidcount = buf.writePos - buf.readPos :=
  sizeSub_eq wf.readPos_le (wf.writePos_le.trans_lt wf.dataLen_lt)

theorem getwritevalidcount (wf : buf.Wf) :
    buf.oxBufferGetwritevalidcount = buf.dataLen - buf.writePos :=
  sizeSub_eq wf.writePos_le wf.dataLen_lt

theorem length_readable (wf : buf.Wf) :
    buf.readable.length = buf.writePos - buf.readPos := by
  have hw := wf.writePos_le
  have hr := wf.readPos_le
  unfold dataLen at hw
  exact length_slice (by omega)

end Wf

/-- `ox_buffer_new` gives an empty, well formed buffer. -/
theorem oxBufferNew_spec {malloc : Allocator} {size : ℕ} {buf : Buffer}
    (h : oxBufferNew malloc size = some buf) :
    buf.Wf ∧ buf.readable = [] ∧ buf.dataLen = size ∧ buf.writePos = 0 ∧ size < 2 ^ 63 := by
  unfold oxBufferNew at h
  split at h
  · rename_i hgrants
    have hlt := malloc.lt_of_grants size hgrants
    cases h
    refine ⟨⟨?_, Nat.zero_le _, Nat.le_refl _⟩, rfl, by simp [dataLen], rfl, hlt⟩
    simp only [dataLen, List.length_replicate, sizeMod]
    omega
  · cases h

/-- Bytes stored behind the readable ones and then counted extend them. -/
theorem Wf.store {buf : Buffer} (wf : buf.Wf) {bytes : List UInt8}
    (hfit : bytes.length ≤ buf.oxBufferGetwritevalidcount) :
    let next := (buf.store bytes).oxBufferAddwritepos bytes.length
    next.Wf ∧ next.readable = buf.readable ++ bytes ∧ next.dataLen = buf.dataLen ∧
      next.readPos = buf.readPos := by
  rw [wf.getwritevalidcount] at hfit
  have hd := wf.dataLen_lt
  have hw := wf.writePos_le
  have hr := wf.readPos_le
  have hlen : (blit buf.data buf.writePos bytes).length = buf.data.length :=
    length_blit (by unfold dataLen at hfit hw; omega)
  have hadd : sizeAdd buf.writePos bytes.length = buf.writePos + bytes.length :=
    sizeAdd_eq (by omega)
  have hle : buf.writePos + bytes.length ≤ (buf.store bytes).dataLen := by
    simp only [Buffer.store, dataLen, hlen] at *
    omega
  have hnext : (buf.store bytes).oxBufferAddwritepos bytes.length =
      { buf.store bytes with writePos := buf.writePos + bytes.length } := by
    simp only [oxBufferAddwritepos]
    rw [show (buf.store bytes).writePos = buf.writePos from rfl, hadd, if_pos hle]
  simp only [hnext]
  refine ⟨⟨?_, hle, ?_⟩, ?_, hlen, rfl⟩
  · show (blit buf.data buf.writePos bytes).length < sizeMod
    rw [hlen]
    exact hd
  · show buf.readPos ≤ buf.writePos + bytes.length
    omega
  · show slice (blit buf.data buf.writePos bytes) buf.readPos
      (buf.writePos + bytes.length - buf.readPos) = _
    rw [show buf.writePos + bytes.length - buf.readPos =
        buf.writePos - buf.readPos + bytes.length by omega]
    exact slice_blit hr (by unfold dataLen at hfit hw; omega)

/-- Consuming `n` readable bytes drops them. -/
theorem Wf.addreadpos {buf : Buffer} (wf : buf.Wf) {n : ℕ}
    (hn : n ≤ buf.oxBufferGetreadvalidcount) :
    (buf.oxBufferAddreadpos n).Wf ∧
      (buf.oxBufferAddreadpos n).readable = buf.readable.drop n ∧
      (buf.oxBufferAddreadpos n).dataLen = buf.dataLen := by
  rw [wf.getreadvalidcount] at hn
  have hd := wf.dataLen_lt
  have hw := wf.writePos_le
  have hr := wf.readPos_le
  have hadd : sizeAdd buf.readPos n = buf.readPos + n := sizeAdd_eq (by omega)
  have hnext : buf.oxBufferAddreadpos n = { buf with readPos := buf.readPos + n } := by
    simp only [oxBufferAddreadpos, hadd]
    exact if_pos (by omega)
  rw [hnext]
  refine ⟨⟨hd, hw, ?_⟩, ?_, rfl⟩
  · show buf.readPos + n ≤ buf.writePos
    omega
  · simp only [readable, drop_slice]
    congr 1
    omega

/-- Moving to the head keeps the readable bytes. -/
theorem Wf.adjusttoHead {buf : Buffer} (wf : buf.Wf) :
    buf.oxBufferAdjusttoHead.Wf ∧ buf.oxBufferAdjusttoHead.readable = buf.readable ∧
      buf.oxBufferAdjusttoHead.readPos = 0 := by
  have hd := wf.dataLen_lt
  have hw := wf.writePos_le
  have hcount := wf.getreadvalidcount
  have hlen := wf.length_readable
  by_cases hread : buf.readPos ≤ 0
  · have hzero : buf.readPos = 0 := by omega
    have hself : buf.oxBufferAdjusttoHead = buf := by simp [oxBufferAdjusttoHead, hread]
    rw [hself]
    exact ⟨wf, rfl, hzero⟩
  · have hhead := dataLen_oxBufferAdjusttoHead buf
    have hwrite : buf.oxBufferAdjusttoHead.writePos = buf.writePos - buf.readPos := by
      simp [oxBufferAdjusttoHead, hread, hcount]
    have hreadPos : buf.oxBufferAdjusttoHead.readPos = 0 := by
      simp [oxBufferAdjusttoHead, hread]
    refine ⟨⟨by omega, by omega, by omega⟩, ?_, hreadPos⟩
    rw [readable, hwrite, hreadPos, Nat.sub_zero]
    by_cases hpos : 0 < buf.writePos - buf.readPos
    · have hdata : buf.oxBufferAdjusttoHead.data = blit buf.data 0 buf.readable := by
        simp [oxBufferAdjusttoHead, hread, hcount, hpos, readable]
      rw [hdata, ← hlen]
      exact slice_blit_zero (by unfold dataLen at hw; omega)
    · have hempty : buf.writePos - buf.readPos = 0 := by omega
      simp [readable, hempty, slice]

/-- A write that fits into the room of the buffer appends its bytes. -/
theorem Wf.write {buf : Buffer} (wf : buf.Wf) {bytes : List UInt8}
    (hfit : bytes.length ≤ buf.dataLen - (buf.writePos - buf.readPos)) :
    (buf.oxBufferWrite bytes).1.Wf ∧
      (buf.oxBufferWrite bytes).1.readable = buf.readable ++ bytes ∧
      (buf.oxBufferWrite bytes).1.dataLen = buf.dataLen := by
  have hroom : sizeSub buf.dataLen buf.oxBufferGetreadvalidcount =
      buf.dataLen - (buf.writePos - buf.readPos) := by
    rw [wf.getreadvalidcount]
    exact sizeSub_eq ((Nat.sub_le _ _).trans wf.writePos_le) wf.dataLen_lt
  rw [oxBufferWrite]
  by_cases hdirect : bytes.length ≤ buf.oxBufferGetwritevalidcount
  · obtain ⟨hwf, hreadable, hlen, -⟩ := wf.store hdirect
    simp only [if_pos hdirect]
    exact ⟨hwf, hreadable, hlen⟩
  · have hleft : bytes.length ≤ sizeSub buf.dataLen buf.oxBufferGetreadvalidcount := by
      rw [hroom]
      exact hfit
    obtain ⟨hwf, hreadable, -⟩ := wf.adjusttoHead
    have hagain : bytes.length ≤ buf.oxBufferAdjusttoHead.oxBufferGetwritevalidcount := by
      rw [getwritevalidcount_adjusttoHead]
      exact hleft
    obtain ⟨hwf', hreadable', hlen', -⟩ := hwf.store hagain
    simp only [if_neg hdirect, if_pos hleft]
    rw [oxBufferWrite, if_pos hagain]
    exact ⟨hwf', by rw [hreadable', hreadable],
      by rw [hlen', dataLen_oxBufferAdjusttoHead]⟩

end Buffer

end Brynet
