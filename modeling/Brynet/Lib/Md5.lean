import Brynet.Lib.Blocks
import Brynet.Lib.Memory
import Brynet.Lib.Word32

/-!
# MD5

The hash of RFC 1321.  The sixty-four steps are one step, with a function, a shift and a
word of the block that depend on its number.
-/

namespace Md5

open Word32

/-- The four words of the state. -/
structure Words where
  a : UInt32
  b : UInt32
  c : UInt32
  d : UInt32
deriving Repr, DecidableEq

def init : Words := ⟨0x67452301, 0xefcdab89, 0x98badcfe, 0x10325476⟩

/-- The constants, which the standard takes from the sine. -/
def table : List UInt32 :=
  [0xd76aa478, 0xe8c7b756, 0x242070db, 0xc1bdceee,
    0xf57c0faf, 0x4787c62a, 0xa8304613, 0xfd469501,
    0x698098d8, 0x8b44f7af, 0xffff5bb1, 0x895cd7be,
    0x6b901122, 0xfd987193, 0xa679438e, 0x49b40821,
    0xf61e2562, 0xc040b340, 0x265e5a51, 0xe9b6c7aa,
    0xd62f105d, 0x2441453, 0xd8a1e681, 0xe7d3fbc8,
    0x21e1cde6, 0xc33707d6, 0xf4d50d87, 0x455a14ed,
    0xa9e3e905, 0xfcefa3f8, 0x676f02d9, 0x8d2a4c8a,
    0xfffa3942, 0x8771f681, 0x6d9d6122, 0xfde5380c,
    0xa4beea44, 0x4bdecfa9, 0xf6bb4b60, 0xbebfbc70,
    0x289b7ec6, 0xeaa127fa, 0xd4ef3085, 0x4881d05,
    0xd9d4d039, 0xe6db99e5, 0x1fa27cf8, 0xc4ac5665,
    0xf4292244, 0x432aff97, 0xab9423a7, 0xfc93a039,
    0x655b59c3, 0x8f0ccc92, 0xffeff47d, 0x85845dd1,
    0x6fa87e4f, 0xfe2ce6e0, 0xa3014314, 0x4e0811a1,
    0xf7537e82, 0xbd3af235, 0x2ad7d2bb, 0xeb86d391]

/-- The function of step `t`. -/
def fn (t : ℕ) (x y z : UInt32) : UInt32 :=
  if t < 16 then (x &&& y) ||| (~~~x &&& z)
  else if t < 32 then (x &&& z) ||| (y &&& ~~~z)
  else if t < 48 then x ^^^ y ^^^ z
  else y ^^^ (x ||| ~~~z)

/-- The word of the block that step `t` takes. -/
def index (t : ℕ) : ℕ :=
  if t < 16 then t
  else if t < 32 then (5 * t + 1) % 16
  else if t < 48 then (3 * t + 5) % 16
  else 7 * t % 16

/-- The rotation of step `t`. -/
def shift (t : ℕ) : ℕ :=
  let amounts :=
    if t < 16 then [7, 12, 17, 22]
    else if t < 32 then [5, 9, 14, 20]
    else if t < 48 then [4, 11, 16, 23]
    else [6, 10, 15, 21]
  amounts.getD (t % 4) 0

/-- Word `t` of a block. -/
def word (block : List UInt8) (t : ℕ) : UInt32 := ofLE (Memory.slice block (4 * t) 4)

/-- Step `t`. -/
def step (x : ℕ → UInt32) (t : ℕ) (s : Words) : Words where
  a := s.d
  b := s.b + rotl (s.a + fn t s.b s.c s.d + x (index t) + table.getD t 0) (shift t)
  c := s.b
  d := s.c

/-- The first `t` steps. -/
def steps (x : ℕ → UInt32) : ℕ → Words → Words
  | 0, s => s
  | t + 1, s => step x t (steps x t s)

def add (s s' : Words) : Words := ⟨s.a + s'.a, s.b + s'.b, s.c + s'.c, s.d + s'.d⟩

/-- The state after a block. -/
def compress (s : Words) (block : List UInt8) : Words := add (steps (word block) 64 s) s

def digest (s : Words) : List UInt8 := [s.a, s.b, s.c, s.d].flatMap toLE

/-- The length of a message of `len` bytes, as it closes the message. -/
def lengthField (len : ℕ) : List UInt8 := Endian.toLE 8 (8 * len)

/-- The hash of a message. -/
def md5 (message : List UInt8) : List UInt8 :=
  digest (Blocks.hash 64 compress init lengthField message)

theorem index_lt (t : ℕ) : index t < 16 := by
  unfold index
  split_ifs <;> omega

/-- The steps read sixteen words only. -/
theorem steps_congr {x y : ℕ → UInt32} (h : ∀ k < 16, x k = y k) (n : ℕ) (s : Words) :
    steps x n s = steps y n s := by
  induction n with
  | zero => rfl
  | succ n ih => rw [steps, steps, ih, step, step, h _ (index_lt n)]

end Md5
