import Mathlib.Data.List.Basic
import Mathlib.Tactic.Positivity
import Mathlib.Tactic.Ring

/-!
# Bytes of a number

A number as a given count of bytes, least significant first, and back.  `swap` is the
number whose bytes are those of another one in the opposite order.
-/

namespace Endian

/-- The lowest `n` bytes of `v`, least significant first. -/
def toLE : ℕ → ℕ → List UInt8
  | 0, _ => []
  | n + 1, v => UInt8.ofNat v :: toLE n (v / 256)

/-- The number with these bytes, least significant first. -/
def ofLE : List UInt8 → ℕ
  | [] => 0
  | b :: rest => b.toNat + 256 * ofLE rest

/-- The lowest `n` bytes of `v`, most significant first. -/
def toBE (n v : ℕ) : List UInt8 := (toLE n v).reverse

/-- The lowest `n` bytes of `v` in one order or the other. -/
def ordered (bigEndian : Bool) (n v : ℕ) : List UInt8 := if bigEndian then toBE n v else toLE n v

/-- The number with the lowest `n` bytes of `v` in the opposite order. -/
def swap (n v : ℕ) : ℕ := ofLE (toBE n v)

variable {n m v : ℕ} {bytes : List UInt8}

@[simp]
theorem length_toLE (n v : ℕ) : (toLE n v).length = n := by
  induction n generalizing v with
  | zero => rfl
  | succ n ih => simp [toLE, ih]

@[simp]
theorem length_toBE (n v : ℕ) : (toBE n v).length = n := by
  rw [toBE, List.length_reverse, length_toLE]

theorem ofLE_lt (bytes : List UInt8) : ofLE bytes < 256 ^ bytes.length := by
  induction bytes with
  | nil => simp [ofLE]
  | cons b rest ih =>
      have hb := b.toNat_lt
      rw [List.length_cons, pow_succ, ofLE]
      omega

theorem ofLE_toLE (n v : ℕ) : ofLE (toLE n v) = v % 256 ^ n := by
  induction n generalizing v with
  | zero => simp [toLE, ofLE, Nat.mod_one]
  | succ n ih =>
      rw [toLE, ofLE, ih, UInt8.toNat_ofNat', pow_succ' 256 n, Nat.mod_mul]

theorem toLE_ofLE (bytes : List UInt8) : toLE bytes.length (ofLE bytes) = bytes := by
  induction bytes with
  | nil => rfl
  | cons b rest ih =>
      have hb := b.toNat_lt
      have hlow : UInt8.ofNat (b.toNat + 256 * ofLE rest) = b := by
        apply UInt8.toNat_inj.mp
        rw [UInt8.toNat_ofNat']
        omega
      have hhigh : (b.toNat + 256 * ofLE rest) / 256 = ofLE rest := by omega
      rw [List.length_cons, ofLE, toLE, hlow, hhigh, ih]

/-- The bytes of a number that is put together from two. -/
theorem toLE_add (m n : ℕ) {low : ℕ} (hlow : low < 256 ^ m) (high : ℕ) :
    toLE (m + n) (high * 256 ^ m + low) = toLE m low ++ toLE n high := by
  induction m generalizing low with
  | zero =>
      have hzero : low = 0 := by simpa using hlow
      simp [hzero, toLE]
  | succ m ih =>
      have hsplit : high * 256 ^ (m + 1) + low = 256 * (high * 256 ^ m) + low := by ring
      have hrest : (high * 256 ^ (m + 1) + low) / 256 = high * 256 ^ m + low / 256 := by omega
      have hbyte : UInt8.ofNat (high * 256 ^ (m + 1) + low) = UInt8.ofNat low := by
        apply UInt8.toNat_inj.mp
        rw [UInt8.toNat_ofNat', UInt8.toNat_ofNat']
        omega
      have hlow' : low / 256 < 256 ^ m := by
        rw [pow_succ] at hlow
        omega
      rw [Nat.add_right_comm, toLE, toLE, hrest, hbyte, ih hlow', List.cons_append]

theorem ofLE_append (low high : List UInt8) :
    ofLE (low ++ high) = ofLE low + 256 ^ low.length * ofLE high := by
  induction low with
  | nil => simp [ofLE]
  | cons b rest ih =>
      rw [List.cons_append, ofLE, ofLE, ih, List.length_cons, pow_succ]
      ring

theorem toLE_swap (n v : ℕ) : toLE n (swap n v) = toBE n v := by
  have h := toLE_ofLE (toBE n v)
  rwa [length_toBE] at h

theorem toLE_ite_swap (bigEndian : Bool) (n v : ℕ) :
    toLE n (if bigEndian then swap n v else v) = ordered bigEndian n v := by
  cases bigEndian with
  | false => rfl
  | true => exact toLE_swap n v

@[simp]
theorem length_ordered (bigEndian : Bool) (n v : ℕ) : (ordered bigEndian n v).length = n := by
  cases bigEndian with
  | false => exact length_toLE n v
  | true => exact length_toBE n v

theorem ofLE_ordered (bigEndian : Bool) (h : v < 256 ^ n) :
    ofLE (ordered bigEndian n v) = if bigEndian then swap n v else v := by
  cases bigEndian with
  | false => exact (ofLE_toLE n v).trans (Nat.mod_eq_of_lt h)
  | true => rfl

/-- A single byte has no order. -/
theorem ordered_one (bigEndian : Bool) (v : ℕ) : ordered bigEndian 1 v = toLE 1 v := by
  cases bigEndian <;> rfl

theorem swap_lt (n v : ℕ) : swap n v < 256 ^ n := by
  have h := ofLE_lt (toBE n v)
  rwa [length_toBE] at h

theorem swap_swap (h : v < 256 ^ n) : swap n (swap n v) = v := by
  rw [swap, toBE, toLE_swap, toBE, List.reverse_reverse, ofLE_toLE, Nat.mod_eq_of_lt h]

/-- To swap the bytes of a number, swap those of its two parts and exchange the parts. -/
theorem swap_add (m n v : ℕ) :
    swap (m + n) v = swap m (v % 256 ^ m) * 256 ^ n + swap n (v / 256 ^ m) := by
  have hbytes : toLE (m + n) v = toLE m (v % 256 ^ m) ++ toLE n (v / 256 ^ m) := by
    rw [← toLE_add m n (Nat.mod_lt v (by positivity)), Nat.div_add_mod']
  rw [swap, toBE, hbytes, List.reverse_append, ofLE_append, List.length_reverse, length_toLE]
  change swap n (v / 256 ^ m) + 256 ^ n * swap m (v % 256 ^ m) = _
  ring

end Endian
