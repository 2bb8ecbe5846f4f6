import Brynet.Utils.PacketRead

/-!
# The position of a `BasePacketReader`

`addPos` adds an `int` to a `size_t`.  The buffer is an object in memory, so its end is
below `2 ^ 63`; a sum that would be negative is then a number close to `2 ^ 64`, beyond
the end, and the comparison with `mMaxLen` alone refuses it.
-/

namespace Brynet

open Endian MachineInt Memory Socketendian

/-! ## Reads of one object -/

/-- The size of the object that is read at once. -/
def PacketType.width : PacketType → Option ℕ
  | bool | int8 | uint8 => some 1
  | int16 | uint16 => some 2
  | int32 | uint32 => some 4
  | int64 | uint64 => some 8
  | binary _ => none

/-- The value all of whose bytes are zero. -/
def PacketValue.zero : PacketType → PacketValue
  | .bool => .bool false
  | .int8 => .int8 0
  | .uint8 => .uint8 0
  | .int16 => .int16 0
  | .uint16 => .uint16 0
  | .int32 => .int32 0
  | .uint32 => .uint32 0
  | .int64 => .int64 0
  | .uint64 => .uint64 0
  | .binary len => .binary (List.replicate len 0)

theorem PacketType.width_le {type : PacketType} {n : ℕ} (h : type.width = some n) : n ≤ 8 := by
  cases type <;> cases h <;> decide

namespace Socketendian

theorem networkToHost16_zero (p : Platform) (convert : Bool) : networkToHost16 p 0 convert = 0 := by
  cases p <;> cases convert <;> decide

theorem networkToHost32_zero (p : Platform) (convert : Bool) : networkToHost32 p 0 convert = 0 := by
  cases p <;> cases convert <;> decide

theorem networkToHost64_zero (p : Platform) (convert : Bool) : networkToHost64 p 0 convert = 0 := by
  cases p <;> cases convert <;> decide

end Socketendian

namespace BasePacketReader

variable {r : BasePacketReader} {p : Platform} {type : PacketType} {n : ℕ}

theorem read_mBigEndian : (r.read n).2.mBigEndian = r.mBigEndian := by
  unfold read
  split <;> rfl

theorem exists_decode (decode : Bool → List UInt8 → PacketValue)
    (hzero : ∀ bigEndian, decode bigEndian (List.replicate n 0) = .zero type)
    (hread : r.readValue p type =
      (decode (r.read n).2.mBigEndian (r.read n).1, (r.read n).2)) :
    ∃ decode : List UInt8 → PacketValue,
      decode (List.replicate n 0) = .zero type ∧
      r.readValue p type = (r.read n).map decode id := by
  refine ⟨decode r.mBigEndian, hzero r.mBigEndian, ?_⟩
  rw [hread, read_mBigEndian]
  rfl

/-- A typed read makes a value of the bytes of its object, and of zero bytes zero. -/
theorem readValue_of_width (h : type.width = some n) :
    ∃ decode : List UInt8 → PacketValue,
      decode (List.replicate n 0) = .zero type ∧
      r.readValue p type = (r.read n).map decode id := by
  cases type with
  | binary len => cases h
  | bool =>
      cases h
      exact exists_decode (fun _ value => .bool (ofLE value ≠ 0)) (fun _ => rfl) rfl
  | int8 =>
      cases h
      exact exists_decode (fun _ value => .int8 (UInt8.ofNat (ofLE value)).toInt8) (fun _ => rfl) rfl
  | uint8 =>
      cases h
      exact exists_decode (fun _ value => .uint8 (.ofNat (ofLE value))) (fun _ => rfl) rfl
  | int16 =>
      cases h
      apply exists_decode fun convert value =>
        .int16 (networkToHost16 p (.ofNat (ofLE value)) convert).toInt16
      · intro convert
        exact congrArg (PacketValue.int16 ∘ UInt16.toInt16) (networkToHost16_zero p convert)
      · rfl
  | uint16 =>
      cases h
      apply exists_decode fun convert value =>
        .uint16 (networkToHost16 p (.ofNat (ofLE value)) convert)
      · intro convert
        exact congrArg PacketValue.uint16 (networkToHost16_zero p convert)
      · rfl
  | int32 =>
      cases h
      apply exists_decode fun convert value =>
        .int32 (networkToHost32 p (.ofNat (ofLE value)) convert).toInt32
      · intro convert
        exact congrArg (PacketValue.int32 ∘ UInt32.toInt32) (networkToHost32_zero p convert)
      · rfl
  | uint32 =>
      cases h
      apply exists_decode fun convert value =>
        .uint32 (networkToHost32 p (.ofNat (ofLE value)) convert)
      · intro convert
        exact congrArg PacketValue.uint32 (networkToHost32_zero p convert)
      · rfl
  | int64 =>
      cases h
      apply exists_decode fun convert value =>
        .int64 (networkToHost64 p (.ofNat (ofLE value)) convert).toInt64
      · intro convert
        exact congrArg (PacketValue.int64 ∘ UInt64.toInt64) (networkToHost64_zero p convert)
      · rfl
  | uint64 =>
      cases h
      apply exists_decode fun convert value =>
        .uint64 (networkToHost64 p (.ofNat (ofLE value)) convert)
      · intro convert
        exact congrArg PacketValue.uint64 (networkToHost64_zero p convert)
      · rfl

/-! ## The range -/

structure InRange (r : BasePacketReader) (len : ℕ) : Prop where
  mMaxLen_eq : r.mMaxLen = len
  mPos_le : r.mPos ≤ r.mMaxLen
  mMaxLen_lt : r.mMaxLen < 2 ^ 63

variable {len : ℕ}

theorem InRange.sizeAdd_eq (h : r.InRange len) (hn : n < 2 ^ 63) :
    sizeAdd r.mPos n = r.mPos + n :=
  BasePacketWriter.sizeAdd_of_lt (h.mPos_le.trans_lt h.mMaxLen_lt) hn

theorem InRange.getLeft (h : r.InRange len) : r.getLeft = r.mMaxLen - r.mPos := by
  have hlt := h.mMaxLen_lt
  apply sizeSub_eq h.mPos_le
  unfold sizeMod
  omega

theorem InRange.read (h : r.InRange len) (hn : n < 2 ^ 63) : (r.read n).2.InRange len := by
  unfold BasePacketReader.read
  rw [h.sizeAdd_eq hn]
  split
  case isTrue hle => exact { h with mPos_le := hle }
  case isFalse => exact h

theorem InRange.read_of_lt (h : r.InRange len) (hn : n < 2 ^ 63) (hend : r.mMaxLen < r.mPos + n) :
    r.read n = (List.replicate n 0, r) := by
  unfold BasePacketReader.read
  rw [h.sizeAdd_eq hn, if_neg (by omega)]

/-- **A read past the end returns zero** and does not move. -/
theorem InRange.readValue_of_lt (h : r.InRange len) (p : Platform) (hwidth : type.width = some n)
    (hend : r.mMaxLen < r.mPos + n) : r.readValue p type = (.zero type, r) := by
  obtain ⟨decode, hzero, hread⟩ := readValue_of_width (r := r) (p := p) hwidth
  have hn := type.width_le hwidth
  rw [hread, h.read_of_lt (by omega) hend, Prod.map_apply, hzero, id]

theorem InRange.readBytes (h : r.InRange len) (n : ℕ) : (r.readBytes n).2.InRange len := by
  induction n generalizing r with
  | zero => exact h
  | succ n ih => exact ih (h.read (n := 1) (by decide))

theorem InRange.readValue (h : r.InRange len) (p : Platform) (type : PacketType) :
    (r.readValue p type).2.InRange len := by
  cases hwidth : type.width with
  | some n =>
      obtain ⟨decode, -, hread⟩ := readValue_of_width (r := r) (p := p) hwidth
      have hn := type.width_le hwidth
      rw [hread]
      exact h.read (by omega)
  | none =>
      cases type with
      | binary n => exact h.readBytes n
      | _ => cases hwidth

theorem InRange.skipAll (h : r.InRange len) : r.skipAll.InRange len :=
  { h with mPos_le := le_rfl }

/-- The sum in `size_t` is the sum of the numbers if that is in range, and otherwise it is
beyond the end. -/
theorem InRange.sizeAdd_ofInt32 (h : r.InRange len) (value : Int32) :
    let sum := (r.mPos : ℤ) + value.toInt
    (sizeAdd r.mPos (ofInt32 value.toInt) ≤ r.mMaxLen ↔ 0 ≤ sum ∧ sum ≤ r.mMaxLen) ∧
    (0 ≤ sum → (sizeAdd r.mPos (ofInt32 value.toInt) : ℤ) = sum) := by
  have hpos := h.mPos_le
  have hlt := h.mMaxLen_lt
  have hlow := value.le_toInt
  have hhigh := value.toInt_lt
  -- A sum below zero becomes one of at least `2 ^ 64 - 2 ^ 31`, and the end is below that.
  unfold sizeAdd ofInt32 sizeMod
  omega

/-- **`addPos` moves as in the integers.** -/
theorem InRange.addPos_eq (h : r.InRange len) (value : Int32) :
    r.addPos value =
      { r with
        mPos :=
          if 0 ≤ r.mPos + value.toInt ∧ r.mPos + value.toInt ≤ r.mMaxLen then
            (r.mPos + value.toInt).toNat
          else r.mPos } := by
  obtain ⟨hiff, hsum⟩ := h.sizeAdd_ofInt32 value
  simp only [BasePacketReader.addPos, Nat.zero_le, true_and]
  by_cases hrange : 0 ≤ r.mPos + value.toInt ∧ r.mPos + value.toInt ≤ r.mMaxLen
  · rw [if_pos (hiff.mpr hrange), if_pos hrange, ← hsum hrange.1, Int.toNat_natCast]
  · rw [if_neg (mt hiff.mp hrange), if_neg hrange]

theorem InRange.addPos (h : r.InRange len) (value : Int32) : (r.addPos value).InRange len := by
  simp only [BasePacketReader.addPos]
  split
  case isTrue hle => exact { h with mPos_le := hle.2 }
  case isFalse => exact h

/-! ## Sequences of calls -/

end BasePacketReader

/-- A call on a reader. -/
inductive ReaderCall
  | readValue (type : PacketType)
  | skipAll
  | addPos (value : Int32)
deriving DecidableEq

namespace BasePacketReader

variable {r : BasePacketReader} {p : Platform} {len : ℕ}

def call (p : Platform) (r : BasePacketReader) : ReaderCall → BasePacketReader
  | .readValue type => (r.readValue p type).2
  | .skipAll => r.skipAll
  | .addPos value => r.addPos value

theorem InRange.call (h : r.InRange len) (p : Platform) (c : ReaderCall) :
    (r.call p c).InRange len := by
  cases c with
  | readValue type => exact h.readValue p type
  | skipAll => exact h.skipAll
  | addPos value => exact h.addPos value

theorem InRange.calls (h : r.InRange len) (p : Platform) (cs : List ReaderCall) :
    (cs.foldl (BasePacketReader.call p) r).InRange len := by
  induction cs generalizing r with
  | nil => exact h
  | cons c cs ih => exact ih (h.call p c)

/-- **The reader stays in its buffer.**  After any calls the position is not beyond the end.
A read past the end returns zero and leaves the reader as it is, and `addPos` moves by the
number it is given, backwards too, when that leads to a position of the buffer, and not
otherwise. -/
theorem reader_in_range (p : Platform) {buffer : List UInt8} (hbuffer : buffer.length < 2 ^ 63)
    (bigEndian : Bool) (cs : List ReaderCall) :
    let r := cs.foldl (call p) (new buffer buffer.length bigEndian)
    r.mMaxLen = buffer.length ∧ r.mPos ≤ r.mMaxLen ∧ r.getLeft = r.mMaxLen - r.mPos ∧
    (∀ (type : PacketType) (n : ℕ), type.width = some n → r.mMaxLen < r.mPos + n →
      r.readValue p type = (.zero type, r)) ∧
    (∀ value : Int32,
      r.addPos value =
        { r with
          mPos :=
            if 0 ≤ r.mPos + value.toInt ∧ r.mPos + value.toInt ≤ r.mMaxLen then
              (r.mPos + value.toInt).toNat
            else r.mPos }) := by
  intro r
  have hnew : (new buffer buffer.length bigEndian).InRange buffer.length :=
    ⟨rfl, Nat.zero_le _, hbuffer⟩
  have hrange : r.InRange buffer.length := hnew.calls p cs
  refine ⟨hrange.mMaxLen_eq, hrange.mPos_le, hrange.getLeft, ?_, hrange.addPos_eq⟩
  intro type n hwidth hend
  exact hrange.readValue_of_lt p hwidth hend

/-- A reader of three bytes that has read two of them: it is not moved back by three, and
reads no 32-bit number. -/
theorem reader_in_range_three :
    let r := [ReaderCall.readValue .uint16].foldl (call .posix) (new [1, 2, 3] 3 true)
    r.mPos = 2 ∧ r.addPos (-3) = r ∧ r.readValue .posix .int32 = (.int32 0, r) := by
  intro r
  have hpos : r.mPos = 2 := rfl
  have hbuffer : [(1 : UInt8), 2, 3].length < 2 ^ 63 := by decide
  obtain ⟨-, -, -, hread, hadd⟩ := reader_in_range .posix hbuffer true [.readValue .uint16]
  refine ⟨hpos, ?_, hread .int32 4 rfl (by decide)⟩
  exact (hadd (-3)).trans (by decide)

end BasePacketReader

end Brynet
