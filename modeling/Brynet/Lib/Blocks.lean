import Brynet.Lib.Endian
import Brynet.Lib.Memory

/-!
# Hashing block by block

A string is taken in blocks of `n` items, and what does not fill a block waits.
Cutting the string in other places changes nothing (`absorb_append`): it is enough
to keep the state and the items that wait.

A hash closes the message with a mark, zeros and a length field and returns the state.
-/

namespace Blocks

variable {α σ : Type*}

/-- The next `count` blocks, and the items behind them. -/
def process (n : ℕ) (f : σ → List α → σ) : ℕ → σ → List α → σ × List α
  | 0, s, xs => (s, xs)
  | count + 1, s, xs => process n f count (f s (xs.take n)) (xs.drop n)

/-- All whole blocks, and the items that wait for the next one to be filled. -/
def absorb (n : ℕ) (f : σ → List α → σ) (s : σ) (xs : List α) : σ × List α :=
  process n f (xs.length / n) s xs

/-- The number of zeros between the mark and a length field of `width` bytes. -/
def zeros (n width len : ℕ) : ℕ := (n - (len + 1 + width) % n) % n

/-- What closes a message of `len` bytes. -/
def closing (n : ℕ) (field : List UInt8) (len : ℕ) : List UInt8 :=
  0x80 :: (List.replicate (zeros n field.length len) 0 ++ field)

/-- The state after the closed message. -/
def hash (n : ℕ) (f : σ → List UInt8 → σ) (init : σ) (field : ℕ → List UInt8)
    (message : List UInt8) : σ :=
  (absorb n f init (message ++ closing n (field message.length) message.length)).1

variable {n : ℕ} {f : σ → List α → σ} {s : σ} {xs : List α}

theorem absorb_of_lt (h : xs.length < n) : absorb n f s xs = (s, xs) := by
  rw [absorb, Nat.div_eq_of_lt h, process]

theorem absorb_of_le (hn : 0 < n) (h : n ≤ xs.length) :
    absorb n f s xs = absorb n f (f s (xs.take n)) (xs.drop n) := by
  have hcount : xs.length / n = (xs.drop n).length / n + 1 := by
    rw [List.length_drop, ← Nat.add_div_right _ hn, Nat.sub_add_cancel h]
  rw [absorb, hcount, process, absorb]

/-- One block. -/
theorem absorb_block (hn : 0 < n) {block : List α} (h : block.length = n) (xs : List α) :
    absorb n f s (block ++ xs) = absorb n f (f s block) xs := by
  have hle : n ≤ (block ++ xs).length := by
    rw [List.length_append, h]
    exact Nat.le_add_right n _
  rw [absorb_of_le hn hle, ← h, List.take_left, List.drop_left]

theorem absorb_single (hn : 0 < n) {block : List α} (h : block.length = n) :
    absorb n f s block = (f s block, []) := by
  have hblock := absorb_block (f := f) (s := s) hn h []
  have hnil : absorb n f (f s block) [] = (f s block, []) := absorb_of_lt hn
  rwa [List.append_nil, hnil] at hblock

/-- Induction on the blocks of a string. -/
theorem block_induction (hn : 0 < n) (f : σ → List α → σ) {P : σ → List α → Prop}
    (short : ∀ s xs, xs.length < n → P s xs)
    (block : ∀ s xs, n ≤ xs.length → P (f s (xs.take n)) (xs.drop n) → P s xs)
    (s : σ) (xs : List α) : P s xs := by
  induction hlen : xs.length using Nat.strong_induction_on generalizing s xs with
  | _ len ih =>
      subst hlen
      by_cases h : xs.length < n
      · exact short s xs h
      · have hle : n ≤ xs.length := Nat.not_lt.mp h
        refine block s xs hle (ih _ ?_ _ _ rfl)
        rw [List.length_drop]
        omega

/-- **A cut changes nothing**, as long as what waits at the cut is kept. -/
theorem absorb_append (hn : 0 < n) (f : σ → List α → σ) (s : σ) (xs ys : List α) :
    absorb n f s (xs ++ ys) =
      absorb n f (absorb n f s xs).1 ((absorb n f s xs).2 ++ ys) := by
  induction s, xs using block_induction hn f with
  | short s xs h => rw [absorb_of_lt h]
  | block s xs h ih =>
      have hsplit : xs ++ ys = xs.take n ++ (xs.drop n ++ ys) := by
        rw [← List.append_assoc, List.take_append_drop]
      calc absorb n f s (xs ++ ys)
          = absorb n f (f s (xs.take n)) (xs.drop n ++ ys) := by
            rw [hsplit]
            exact absorb_block hn (List.length_take_of_le h) _
        _ = _ := ih
        _ = _ := by rw [← absorb_of_le hn h]

/-- What waits never fills a block. -/
theorem length_waiting (hn : 0 < n) (f : σ → List α → σ) (s : σ) (xs : List α) :
    (absorb n f s xs).2.length = xs.length % n := by
  induction s, xs using block_induction hn f with
  | short s xs h => rw [absorb_of_lt h, Nat.mod_eq_of_lt h]
  | block s xs h ih => rw [absorb_of_le hn h, ih, List.length_drop, ← Nat.mod_eq_sub_mod h]

/-- A block from the rest of a string that is read in its place. -/
theorem absorb_slice (hn : 0 < n) (f : σ → List α → σ) (s : σ) {data : List α} {i len : ℕ}
    (hblock : i + n ≤ len) (hlen : len ≤ data.length) :
    absorb n f s (Memory.slice data i (len - i)) =
      absorb n f (f s (Memory.slice data i n)) (Memory.slice data (i + n) (len - (i + n))) := by
  have hle : n ≤ (Memory.slice data i (len - i)).length := by
    rw [Memory.length_slice (by omega)]
    omega
  have htake : (Memory.slice data i (len - i)).take n = Memory.slice data i n := by
    rw [Memory.slice, List.take_take, Nat.min_eq_left (by omega), Memory.slice]
  rw [absorb_of_le hn hle, htake, Memory.drop_slice, Nat.sub_sub]

end Blocks
