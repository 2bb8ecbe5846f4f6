import Mathlib.Algebra.Order.Ring.Int
import Mathlib.Data.List.Basic

/-!
# Blocks of memory

A block is the list of its cells.  `slice` reads a range, `blit` overwrites
one; `memmove` and `memcpy` are a `blit` of a `slice`.  An `Allocator` says
which requests `malloc` grants: it may refuse any of them, and it refuses those
of more than `PTRDIFF_MAX` bytes.
-/

namespace Memory

variable {α : Type*}

/-- The `len` cells from `off` on. -/
def slice (mem : List α) (off len : ℕ) : List α := (mem.drop off).take len

/-- The block with `cells` written at `off`. -/
def blit (mem : List α) (off : ℕ) (cells : List α) : List α :=
  mem.take off ++ cells ++ mem.drop (off + cells.length)

/-- Which sizes `malloc` grants. -/
structure Allocator where
  grants : ℕ → Bool
  lt_of_grants : ∀ n, grants n = true → n < 2 ^ 63

/-- The allocator that grants every request it may. -/
def Allocator.unlimited : Allocator where
  grants n := n < 2 ^ 63
  lt_of_grants _ h := of_decide_eq_true h

theorem length_slice {mem : List α} {off len : ℕ} (h : off + len ≤ mem.length) :
    (slice mem off len).length = len := by
  simp only [slice, List.length_take, List.length_drop]
  omega

theorem length_blit {mem cells : List α} {off : ℕ} (h : off + cells.length ≤ mem.length) :
    (blit mem off cells).length = mem.length := by
  simp only [blit, List.length_append, List.length_take, List.length_drop]
  omega

/-- Reading from `off` up to the end of what was just written. -/
theorem slice_blit {mem cells : List α} {off pos : ℕ} (hle : off ≤ pos)
    (h : pos + cells.length ≤ mem.length) :
    slice (blit mem pos cells) off (pos - off + cells.length) =
      slice mem off (pos - off) ++ cells := by
  have hoff : off ≤ (mem.take pos).length := by
    rw [List.length_take]
    omega
  have hlen : ((mem.take pos).drop off ++ cells).length = pos - off + cells.length := by
    simp only [List.length_append, List.length_drop, List.length_take]
    omega
  unfold slice blit
  rw [List.append_assoc, List.drop_append_of_le_length hoff, ← List.append_assoc,
    ← hlen, List.take_left, List.drop_take]

/-- Dropping the first `n` cells of a slice. -/
theorem drop_slice (mem : List α) (off len n : ℕ) :
    (slice mem off len).drop n = slice mem (off + n) (len - n) := by
  simp only [slice, List.drop_take, List.drop_drop]

/-- Moving a slice to the front of its block. -/
theorem slice_blit_zero {mem cells : List α} (h : cells.length ≤ mem.length) :
    slice (blit mem 0 cells) 0 cells.length = cells := by
  have hblit : slice (blit mem 0 cells) 0 (0 - 0 + cells.length) =
      slice mem 0 (0 - 0) ++ cells := slice_blit (Nat.le_refl 0) (by simpa using h)
  simpa [slice] using hblit

end Memory
