import Mathlib.Algebra.Order.Ring.Int

/-!
# Fixed-width integers of a 64-bit C program

Values of type `size_t` are natural numbers below `2 ^ 64`; the operations that
can wrap around are written out here.  `toInt32` is the conversion of such a
value to `int`, `ofInt32` the conversion back.  Values of type `int64_t` are integers
for which `fitsInt64` holds; `int64` is what an operation on them gives that may leave
that range, and `int32` does the same for `int`.
-/

namespace MachineInt

/-- One more than the largest `size_t`. -/
def sizeMod : ℕ := 2 ^ 64

/-- `a + b` in `size_t`. -/
def sizeAdd (a b : ℕ) : ℕ := (a + b) % sizeMod

/-- `a - b` in `size_t`. -/
def sizeSub (a b : ℕ) : ℕ := (a + (sizeMod - b % sizeMod)) % sizeMod

/-- Conversion to `int`. -/
def toInt32 (n : ℕ) : ℤ :=
  if n % 2 ^ 32 < 2 ^ 31 then ((n % 2 ^ 32 : ℕ) : ℤ) else ((n % 2 ^ 32 : ℕ) : ℤ) - 2 ^ 32

/-- Conversion of an `int` to `size_t`. -/
def ofInt32 (i : ℤ) : ℕ := (i % (2 ^ 64 : ℤ)).toNat

/-- The value of `int` that is `x` but for multiples of `2 ^ 32`. -/
def int32 (x : ℤ) : ℤ := x.bmod (2 ^ 32)

/-- Whether this is a value of `int64_t`. -/
def fitsInt64 (x : ℤ) : Bool := -2 ^ 63 ≤ x && x < 2 ^ 63

/-- The value of `int64_t` that is `x` but for multiples of `2 ^ 64`. -/
def int64 (x : ℤ) : ℤ := x.bmod (2 ^ 64)

theorem sizeAdd_eq {a b : ℕ} (h : a + b < sizeMod) : sizeAdd a b = a + b :=
  Nat.mod_eq_of_lt h

theorem sizeSub_eq {a b : ℕ} (hle : b ≤ a) (ha : a < sizeMod) : sizeSub a b = a - b := by
  unfold sizeSub
  rw [Nat.mod_eq_of_lt (hle.trans_lt ha)]
  have hsplit : a + (sizeMod - b) = (a - b) + sizeMod := by omega
  rw [hsplit, Nat.add_mod_right, Nat.mod_eq_of_lt (by omega)]

theorem toInt32_eq {n : ℕ} (h : n < 2 ^ 31) : toInt32 n = n := by
  have hmod : n % 2 ^ 32 = n := Nat.mod_eq_of_lt (by omega)
  simp only [toInt32, hmod, if_pos h]

theorem ofInt32_natCast {n : ℕ} (h : n < 2 ^ 64) : ofInt32 n = n := by
  unfold ofInt32
  omega

theorem int32_eq {x : ℤ} (hlow : -2 ^ 31 ≤ x) (hhigh : x < 2 ^ 31) : int32 x = x := by
  unfold int32
  apply Int.bmod_eq_of_le <;> omega

theorem int64_eq {x : ℤ} (h : fitsInt64 x = true) : int64 x = x := by
  simp only [fitsInt64, Bool.and_eq_true, decide_eq_true_eq] at h
  unfold int64
  apply Int.bmod_eq_of_le <;> omega

/-- The sign of a sum or difference that may have wrapped around once. -/
theorem int64_pos_iff {x : ℤ} (hlow : -2 ^ 64 < x) (hhigh : x < 2 ^ 64) :
    0 < int64 x ↔ (0 < x ∧ x < 2 ^ 63) ∨ x < -2 ^ 63 := by
  rw [int64, Int.bmod_def]
  split <;> omega

end MachineInt
