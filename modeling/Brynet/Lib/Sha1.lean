import Brynet.Lib.Blocks
import Brynet.Lib.Memory
import Brynet.Lib.Word32

/-!
# SHA-1

The hash of FIPS PUB 180-1, in the terms of the standard: eighty words from the
sixteen of a block, a step for each of them, and the five words of the state added
to what the steps made of them.
-/

namespace Sha1

open Word32

/-- The five words of the state. -/
structure Words where
  a : UInt32
  b : UInt32
  c : UInt32
  d : UInt32
  e : UInt32
deriving Repr, DecidableEq

def init : Words := ⟨0x67452301, 0xEFCDAB89, 0x98BADCFE, 0x10325476, 0xC3D2E1F0⟩

def choose (x y z : UInt32) : UInt32 := (x &&& y) ||| (~~~x &&& z)

def parity (x y z : UInt32) : UInt32 := x ^^^ y ^^^ z

def majority (x y z : UInt32) : UInt32 := (x &&& y) ||| (x &&& z) ||| (y &&& z)

/-- The function of step `t`. -/
def fn (t : ℕ) : UInt32 → UInt32 → UInt32 → UInt32 :=
  if t < 20 then choose else if t < 40 then parity else if t < 60 then majority else parity

/-- The constant of step `t`. -/
def const (t : ℕ) : UInt32 :=
  if t < 20 then 0x5A827999
  else if t < 40 then 0x6ED9EBA1
  else if t < 60 then 0x8F1BBCDC
  else 0xCA62C1D6

/-- Word `t` of a block. -/
def word (block : List UInt8) (t : ℕ) : UInt32 := ofBE (Memory.slice block (4 * t) 4)

/-- Word `t` of the eighty that a block of sixteen makes. -/
def schedule (m : ℕ → UInt32) (t : ℕ) : UInt32 :=
  if t < 16 then m t
  else
    rotl (schedule m (t - 3) ^^^ schedule m (t - 8) ^^^ schedule m (t - 14) ^^^
      schedule m (t - 16)) 1
termination_by t

/-- Step `t`. -/
def step (w : ℕ → UInt32) (t : ℕ) (s : Words) : Words where
  a := rotl s.a 5 + fn t s.b s.c s.d + s.e + w t + const t
  b := s.a
  c := rotl s.b 30
  d := s.c
  e := s.d

/-- The first `t` steps. -/
def steps (w : ℕ → UInt32) : ℕ → Words → Words
  | 0, s => s
  | t + 1, s => step w t (steps w t s)

def add (s s' : Words) : Words := ⟨s.a + s'.a, s.b + s'.b, s.c + s'.c, s.d + s'.d, s.e + s'.e⟩

/-- The state after a block. -/
def compress (s : Words) (block : List UInt8) : Words :=
  add s (steps (schedule (word block)) 80 s)

def digest (s : Words) : List UInt8 := [s.a, s.b, s.c, s.d, s.e].flatMap toBE

/-- The hash of a message. -/
def sha1 (message : List UInt8) : List UInt8 :=
  digest (Blocks.hash 64 compress init (fun len => Endian.toBE 8 (8 * len)) message)

variable {m : ℕ → UInt32} {t : ℕ}

theorem schedule_of_lt (h : t < 16) : schedule m t = m t := by
  rw [schedule, if_pos h]

theorem schedule_of_le (h : 16 ≤ t) :
    schedule m t = rotl (schedule m (t - 3) ^^^ schedule m (t - 8) ^^^ schedule m (t - 14) ^^^
      schedule m (t - 16)) 1 := by
  rw [schedule, if_neg (Nat.not_lt.mpr h)]

@[simp] theorem length_digest (s : Words) : (digest s).length = 20 := by
  simp [digest]

end Sha1
