import Mathlib.Data.Nat.Bitwise
import Brynet.Http.Url

/-!
# Extracting a WebSocket frame

`WebSocketFormat::wsFrameExtractBuffer`.  It reads bytes of the buffer as it goes
and returns false as soon as the buffer turns out to be too short, or the frame
too long.  A read behind the end of the buffer is a result of its own here
(`outOfRange`), so that the bounds checks of the source carry a meaning.

Every stage only looks at bytes that it knows to be there, so what it found is
found again when more bytes follow (`Stable`).  That is what makes waiting for
more data sound.
-/

namespace Brynet.Http

open Memory

/-- `enum class WebSocketFrameType`.  The source casts the low half of a byte to
it, so it also has values without a name. -/
structure WebSocketFrameType where
  code : UInt8
deriving Repr, DecidableEq

namespace WebSocketFrameType

def errorFrame : WebSocketFrameType := ⟨0xff⟩

def continuationFrame : WebSocketFrameType := ⟨0x00⟩

def textFrame : WebSocketFrameType := ⟨0x01⟩

def binaryFrame : WebSocketFrameType := ⟨0x02⟩

def closeFrame : WebSocketFrameType := ⟨0x08⟩

def pingFrame : WebSocketFrameType := ⟨0x09⟩

def pongFrame : WebSocketFrameType := ⟨0x0a⟩

end WebSocketFrameType

/-- Why no frame was extracted: the function returned false, or it read behind
the end of its buffer. -/
inductive Unextracted
  | incomplete
  | outOfRange
deriving Repr, DecidableEq

/-- The results of an extraction. -/
abbrev Extract (α : Type) := Except Unextracted α

/-- `buffer[i]`. -/
def byteAt (i : ℕ) (buffer : Bytes) : Extract ℕ :=
  match buffer[i]? with
  | some b => .ok b.toNat
  | none => .error .outOfRange

/-- The `len` bytes from `pos` on. -/
def bytesAt (pos len : ℕ) (buffer : Bytes) : Extract Bytes :=
  if pos + len ≤ buffer.length then .ok (slice buffer pos len) else .error .outOfRange

/-- `if (bufferSize < size) return false`. -/
def require (size : ℕ) (buffer : Bytes) : Extract Unit :=
  if buffer.length < size then .error .incomplete else .ok ()

/-- Conversion to `uint32_t`. -/
def toUInt32 (n : ℕ) : ℕ := n % 2 ^ 32

/-- What a frame says about itself: the payload with what it was appended to. -/
structure WsFrame where
  payload : Bytes
  opcode : WebSocketFrameType
  frameSize : ℕ
  fin : Bool
deriving Repr, DecidableEq

/-- The length of the payload and the position behind it, given the seven bits
in the second byte. -/
def wsPayloadLen (short : ℕ) (buffer : Bytes) : Extract (ℕ × ℕ) :=
  if short = 126 then do
    require 4 buffer
    let b2 ← byteAt 2 buffer
    let b3 ← byteAt 3 buffer
    return (toUInt32 (b2 * 2 ^ 8 + b3), 4)
  else if short = 127 then do
    require 10 buffer
    let b2 ← byteAt 2 buffer
    let b3 ← byteAt 3 buffer
    let b4 ← byteAt 4 buffer
    let b5 ← byteAt 5 buffer
    if b2 ≠ 0 ∨ b3 ≠ 0 ∨ b4 ≠ 0 ∨ b5 ≠ 0 then
      .error .incomplete
    else do
      let b6 ← byteAt 6 buffer
      if b6 &&& 0x80 ≠ 0 then
        .error .incomplete
      else do
        let b7 ← byteAt 7 buffer
        let b8 ← byteAt 8 buffer
        let b9 ← byteAt 9 buffer
        return (toUInt32 (b6 * 2 ^ 24 + b7 * 2 ^ 16 + b8 * 2 ^ 8 + b9), 10)
  else
    .ok (short, 2)

/-- The mask, if there is one, and the position behind it. -/
def wsMask (isMasking : Bool) (pos : ℕ) (buffer : Bytes) : Extract (Option Bytes × ℕ) :=
  if isMasking then do
    require (pos + 4) buffer
    let mask ← bytesAt pos 4 buffer
    return (some mask, pos + 4)
  else
    .ok (none, pos)

/-- The payload: every byte combined with the mask byte of its place. -/
def unmask (mask : Option Bytes) (data : Bytes) : Bytes :=
  match mask with
  | some mask => data.mapIdx fun j b => b ^^^ mask.getD (j % 4) 0
  | none => data

/-- `wsFrameExtractBuffer`; the payload is appended to `payload`. -/
def wsFrameExtractBuffer (payload buffer : Bytes) : Extract WsFrame := do
  require 2 buffer
  let b0 ← byteAt 0 buffer
  let b1 ← byteAt 1 buffer
  let length ← wsPayloadLen (b1 &&& 0x7f) buffer
  let mask ← wsMask (b1 &&& 0x80 != 0) length.2 buffer
  require (toUInt32 (mask.2 + length.1)) buffer
  let data ← bytesAt mask.2 length.1 buffer
  return {
    payload := payload ++ unmask mask.1 data
    opcode := ⟨UInt8.ofNat (b0 &&& 0x0f)⟩
    frameSize := toUInt32 (length.1 + mask.2)
    fin := b0 &&& 0x80 != 0 }

/-! ## Bytes that follow -/

/-- What `f` finds in a buffer it also finds when more bytes follow. -/
def Stable {α : Type} (f : Bytes → Extract α) : Prop :=
  ∀ buffer rest result, f buffer = .ok result → f (buffer ++ rest) = .ok result

section Stable

variable {α β : Type}

theorem Stable.const (r : Extract α) : Stable fun _ => r :=
  fun _ _ _ h => h

theorem Stable.bind {f : Bytes → Extract α} {g : α → Bytes → Extract β} (hf : Stable f)
    (hg : ∀ a, Stable (g a)) : Stable fun buffer => f buffer >>= fun a => g a buffer := by
  intro buffer rest result h
  dsimp only at h ⊢
  cases ha : f buffer with
  | error e =>
      rw [ha] at h
      cases h
  | ok a =>
      rw [ha] at h
      rw [hf buffer rest a ha]
      exact hg a buffer rest result h

theorem Stable.ite {c : Prop} [Decidable c] {f g : Bytes → Extract α} (hf : Stable f)
    (hg : Stable g) : Stable fun buffer => if c then f buffer else g buffer := by
  intro buffer rest result h
  by_cases hc : c
  · simp only [if_pos hc] at h ⊢
    exact hf buffer rest result h
  · simp only [if_neg hc] at h ⊢
    exact hg buffer rest result h

theorem stable_byteAt (i : ℕ) : Stable (byteAt i) := by
  intro buffer rest result h
  unfold byteAt at h ⊢
  cases hb : buffer[i]? with
  | none =>
      rw [hb] at h
      cases h
  | some b =>
      rw [List.getElem?_append_left (List.getElem?_eq_some_iff.mp hb).1, hb]
      rw [hb] at h
      exact h

theorem stable_require (size : ℕ) : Stable (require size) := by
  intro buffer rest result h
  unfold require at h ⊢
  split at h
  · cases h
  · rw [if_neg (by rw [List.length_append]; omega)]

theorem stable_bytesAt (pos len : ℕ) : Stable (bytesAt pos len) := by
  intro buffer rest result h
  unfold bytesAt at h ⊢
  split at h
  · rename_i hle
    rw [if_pos (by rw [List.length_append]; omega)]
    cases h
    unfold slice
    rw [List.drop_append_of_le_length (by omega), List.take_append_of_le_length]
    rw [List.length_drop]
    omega
  · cases h

end Stable

theorem stable_wsPayloadLen (short : ℕ) : Stable (wsPayloadLen short) := by
  refine .ite ?_ (.ite ?_ (.const _))
  · exact (stable_require 4).bind fun _ => (stable_byteAt 2).bind fun b2 =>
      (stable_byteAt 3).bind fun b3 => .const _
  · refine (stable_require 10).bind fun _ => (stable_byteAt 2).bind fun b2 =>
      (stable_byteAt 3).bind fun b3 => (stable_byteAt 4).bind fun b4 =>
      (stable_byteAt 5).bind fun b5 => .ite (.const _) ?_
    refine (stable_byteAt 6).bind fun b6 => .ite (.const _) ?_
    exact (stable_byteAt 7).bind fun b7 => (stable_byteAt 8).bind fun b8 =>
      (stable_byteAt 9).bind fun b9 => .const _

theorem stable_wsMask (isMasking : Bool) (pos : ℕ) : Stable (wsMask isMasking pos) :=
  .ite ((stable_require _).bind fun _ => (stable_bytesAt pos 4).bind fun _ => .const _)
    (.const _)

/-- **A complete frame stays one.**  The bytes behind a frame do not matter. -/
theorem stable_wsFrameExtractBuffer (payload : Bytes) : Stable (wsFrameExtractBuffer payload) :=
  (stable_require 2).bind fun _ => (stable_byteAt 0).bind fun _ => (stable_byteAt 1).bind fun _ =>
    (stable_wsPayloadLen _).bind fun _ => (stable_wsMask _ _).bind fun _ =>
      (stable_require _).bind fun _ => (stable_bytesAt _ _).bind fun _ => .const _

/-! ## The size of a frame -/

variable {buffer : Bytes}

theorem bind_eq_ok {α β : Type} {x : Extract α} {f : α → Extract β} {b : β}
    (h : (x >>= f) = .ok b) : ∃ a, x = .ok a ∧ f a = .ok b := by
  cases x with
  | error e => cases h
  | ok a => exact ⟨a, rfl, h⟩

theorem byteAt_lt {i b : ℕ} (h : byteAt i buffer = .ok b) : b < 256 := by
  unfold byteAt at h
  split at h
  · cases h
    exact UInt8.toNat_lt _
  · cases h

theorem le_of_require {size : ℕ} {u : Unit} (h : require size buffer = .ok u) :
    size ≤ buffer.length := by
  unfold require at h
  split at h
  · cases h
  · omega

/-- The high bit of a byte is clear below 128. -/
theorem and_eq_zero_iff (b : ℕ) (hb : b < 256) : b &&& 0x80 = 0 ↔ b < 128 := by
  have hand : b &&& 0x80 = (b.testBit 7).toNat * 2 ^ 7 := Nat.and_two_pow b 7
  have hbit : b.testBit 7 = false ↔ b < 128 := by
    rw [Nat.testBit_eq_decide_div_mod_eq, decide_eq_false_iff_not]
    omega
  rw [hand, Nat.mul_eq_zero, Bool.toNat_eq_zero, hbit]
  simp

/-- No length of a frame wraps around. -/
theorem wsPayloadLen_bounds {short payloadlen pos : ℕ} (hshort : short < 128)
    (h : wsPayloadLen short buffer = .ok (payloadlen, pos)) :
    payloadlen < 2 ^ 31 ∧ 2 ≤ pos ∧ pos ≤ 10 := by
  unfold wsPayloadLen at h
  split at h
  · obtain ⟨-, -, h⟩ := bind_eq_ok h
    obtain ⟨b2, h2, h⟩ := bind_eq_ok h
    obtain ⟨b3, h3, h⟩ := bind_eq_ok h
    cases h
    have hb2 := byteAt_lt h2
    have hb3 := byteAt_lt h3
    unfold toUInt32
    omega
  · split at h
    · obtain ⟨-, -, h⟩ := bind_eq_ok h
      obtain ⟨b2, -, h⟩ := bind_eq_ok h
      obtain ⟨b3, -, h⟩ := bind_eq_ok h
      obtain ⟨b4, -, h⟩ := bind_eq_ok h
      obtain ⟨b5, -, h⟩ := bind_eq_ok h
      split at h
      · cases h
      · obtain ⟨b6, h6, h⟩ := bind_eq_ok h
        split at h
        · cases h
        · rename_i hhigh
          obtain ⟨b7, h7, h⟩ := bind_eq_ok h
          obtain ⟨b8, h8, h⟩ := bind_eq_ok h
          obtain ⟨b9, h9, h⟩ := bind_eq_ok h
          cases h
          have hb6 := (and_eq_zero_iff b6 (byteAt_lt h6)).mp (not_not.mp hhigh)
          have hb7 := byteAt_lt h7
          have hb8 := byteAt_lt h8
          have hb9 := byteAt_lt h9
          unfold toUInt32
          omega
    · cases h
      omega

theorem wsMask_bounds {isMasking : Bool} {pos pos' : ℕ} {mask : Option Bytes}
    (h : wsMask isMasking pos buffer = .ok (mask, pos')) : pos ≤ pos' ∧ pos' ≤ pos + 4 := by
  unfold wsMask at h
  split at h
  · obtain ⟨-, -, h⟩ := bind_eq_ok h
    obtain ⟨mask, -, h⟩ := bind_eq_ok h
    cases h
    omega
  · cases h
    omega

/-- A frame has at least two bytes and lies within the buffer. -/
theorem frameSize_bounds {payload : Bytes} {frame : WsFrame}
    (h : wsFrameExtractBuffer payload buffer = .ok frame) :
    2 ≤ frame.frameSize ∧ frame.frameSize ≤ buffer.length := by
  unfold wsFrameExtractBuffer at h
  obtain ⟨-, -, h⟩ := bind_eq_ok h
  obtain ⟨b0, -, h⟩ := bind_eq_ok h
  obtain ⟨b1, -, h⟩ := bind_eq_ok h
  obtain ⟨length, hlen, h⟩ := bind_eq_ok h
  obtain ⟨mask, hmask, h⟩ := bind_eq_ok h
  obtain ⟨u, hsize, h⟩ := bind_eq_ok h
  obtain ⟨data, -, h⟩ := bind_eq_ok h
  have hshort : b1 &&& 0x7f < 128 := Nat.lt_of_le_of_lt Nat.and_le_right (by decide)
  obtain ⟨hpayload, hpos, hpos'⟩ := wsPayloadLen_bounds hshort hlen
  obtain ⟨hlow, hhigh⟩ := wsMask_bounds hmask
  have hle := le_of_require hsize
  cases h
  simp only [toUInt32] at hle ⊢
  omega

end Brynet.Http
