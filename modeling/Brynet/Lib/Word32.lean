import Brynet.Lib.Endian
import Mathlib.Data.Nat.Bitwise
import Mathlib.Tactic.IntervalCases

/-!
# Words of 32 bits

A word as four bytes in one order or the other, and its rotation.  What relates the
two is read off the bits: bit `i` of a word is bit `i % 8` of its byte `i / 8`.
-/

namespace Word32

/-- The bits of `x` moved `n` places to the left, in a circle. -/
def rotl (x : UInt32) (n : ℕ) : UInt32 := ⟨x.toBitVec.rotateLeft n⟩

/-- The word with these bytes, least significant first. -/
def ofLE (bytes : List UInt8) : UInt32 := UInt32.ofNat (Endian.ofLE bytes)

/-- The word with these bytes, most significant first. -/
def ofBE (bytes : List UInt8) : UInt32 := ofLE bytes.reverse

/-- The four bytes of a word, least significant first. -/
def toLE (x : UInt32) : List UInt8 := Endian.toLE 4 x.toNat

/-- The four bytes of a word, most significant first. -/
def toBE (x : UInt32) : List UInt8 := Endian.toBE 4 x.toNat

@[simp] theorem length_toLE (x : UInt32) : (toLE x).length = 4 := Endian.length_toLE 4 _

@[simp] theorem length_toBE (x : UInt32) : (toBE x).length = 4 := Endian.length_toBE 4 _

/-- A rotation by two shifts. -/
theorem rotl_eq (x : UInt32) {n : ℕ} (hpos : 0 < n) (hn : n < 32) :
    rotl x n = (x <<< UInt32.ofNat n) ||| (x >>> (32 - UInt32.ofNat n)) := by
  interval_cases n <;> rfl

theorem testBit_ofLE (bytes : List UInt8) (i : ℕ) :
    (Endian.ofLE bytes).testBit i = (bytes.getD (i / 8) 0).toNat.testBit (i % 8) := by
  induction bytes generalizing i with
  | nil => simp [Endian.ofLE]
  | cons b rest ih =>
      have hb : b.toNat < 2 ^ 8 := b.toNat_lt
      have hbase : (256 : ℕ) = 2 ^ 8 := rfl
      rw [Endian.ofLE, Nat.add_comm, hbase, Nat.testBit_two_pow_mul_add _ hb]
      split
      · next hi => simp [Nat.div_eq_of_lt hi, Nat.mod_eq_of_lt hi]
      · next hi =>
          have hdiv : i / 8 = (i - 8) / 8 + 1 := by omega
          have hmod : i % 8 = (i - 8) % 8 := by omega
          rw [ih, hdiv, hmod, List.getD_cons_succ]

theorem getElem_ofLE (bytes : List UInt8) {i : ℕ} (hi : i < 32) :
    (ofLE bytes).toBitVec[i] = (bytes.getD (i / 8) 0).toBitVec.getLsbD (i % 8) := by
  calc (ofLE bytes).toBitVec[i]
      = (decide (i < 32) && (Endian.ofLE bytes).testBit i) :=
        BitVec.getLsbD_ofNat 32 (Endian.ofLE bytes) i
    _ = (Endian.ofLE bytes).testBit i := by rw [decide_eq_true hi, Bool.true_and]
    _ = _ := testBit_ofLE bytes i

/-- A word of four bytes by shifts. -/
theorem ofLE_four (b0 b1 b2 b3 : UInt8) :
    ofLE [b0, b1, b2, b3] = b0.toUInt32 ||| (b1.toUInt32 <<< 8) ||| (b2.toUInt32 <<< 16) |||
      (b3.toUInt32 <<< 24) := by
  apply UInt32.toBitVec_inj.mp
  apply BitVec.eq_of_getElem_eq
  intro i hi
  rw [getElem_ofLE _ hi]
  interval_cases i <;> simp

/-- The other order, by two rotations. -/
theorem ofBE_four (b0 b1 b2 b3 : UInt8) :
    ofBE [b0, b1, b2, b3] = (rotl (ofLE [b0, b1, b2, b3]) 24 &&& 0xFF00FF00) |||
      (rotl (ofLE [b0, b1, b2, b3]) 8 &&& 0x00FF00FF) := by
  apply UInt32.toBitVec_inj.mp
  apply BitVec.eq_of_getElem_eq
  intro i hi
  rw [ofBE, getElem_ofLE _ hi]
  interval_cases i <;> simp [rotl, getElem_ofLE]

end Word32
