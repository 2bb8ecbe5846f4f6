import Brynet.Lib.Memory
import Brynet.Lib.Sha1
import Brynet.Lib.Word32

/-!
# The hash of `utils/SHA1.cpp`

`CSHA1` with its unrolled `Transform`, its buffer of 64 bytes and its two 32-bit
counters of bits.  A `memcpy` or a read that leaves its block is `none`; so is a
loop that does not end.

The macros of `Transform` name five variables in a role that changes from line to
line.  They are data here (`Operation`), so that the eighty lines stand as they do
in the source.
-/

namespace Brynet

open Memory

/-- `ROL32` -/
def rol32 (val : UInt32) (nBits : UInt32) : UInt32 := (val <<< nBits) ||| (val >>> (32 - nBits))

/-- The working variables of `Transform`. -/
inductive Var
  | a | b | c | d | e
deriving Repr, DecidableEq

structure Vars where
  a : UInt32
  b : UInt32
  c : UInt32
  d : UInt32
  e : UInt32
deriving Repr, DecidableEq

namespace Vars

def get (s : Vars) : Var → UInt32
  | .a => s.a
  | .b => s.b
  | .c => s.c
  | .d => s.d
  | .e => s.e

def set (s : Vars) (x : Var) (val : UInt32) : Vars :=
  match x with
  | .a => { s with a := val }
  | .b => { s with b := val }
  | .c => { s with c := val }
  | .d => { s with d := val }
  | .e => { s with e := val }

@[simp] theorem get_set (s : Vars) (x y : Var) (val : UInt32) :
    (s.set x val).get y = if y = x then val else s.get y := by
  cases x <;> cases y <;> rfl

end Vars

/-- `m_block`, as words. -/
abbrev WorkspaceBlock := Vector UInt32 16

/-- `memcpy(m_block, buffer, 64)`, on a little-endian machine. -/
def workspaceBlock (buffer : List UInt8) : WorkspaceBlock :=
  Vector.ofFn fun i => Word32.ofLE (slice buffer (4 * i) 4)

/-- `SHABLK0`, under `SHA1_LITTLE_ENDIAN`: the word is turned around in place. -/
def shablk0 (l : WorkspaceBlock) (i : ℕ) : WorkspaceBlock :=
  l.set (i % 16)
    ((rol32 l[i % 16] 24 &&& 0xFF00FF00) ||| (rol32 l[i % 16] 8 &&& 0x00FF00FF))

/-- `SHABLK` -/
def shablk (l : WorkspaceBlock) (i : ℕ) : WorkspaceBlock :=
  l.set (i % 16)
    (rol32 (l[(i + 13) % 16] ^^^ l[(i + 8) % 16] ^^^ l[(i + 2) % 16] ^^^ l[i % 16]) 1)

/-- The five macros of a line of `Transform`. -/
inductive RoundMacro
  | r0 | r1 | r2 | r3 | r4
deriving Repr, DecidableEq

/-- What a macro computes of `w`, `x` and `y`. -/
def RoundMacro.mix : RoundMacro → UInt32 → UInt32 → UInt32 → UInt32
  | .r0, w, x, y => (w &&& (x ^^^ y)) ^^^ y
  | .r1, w, x, y => (w &&& (x ^^^ y)) ^^^ y
  | .r2, w, x, y => w ^^^ x ^^^ y
  | .r3, w, x, y => ((w ||| x) &&& y) ||| (w &&& x)
  | .r4, w, x, y => w ^^^ x ^^^ y

/-- The constant a macro adds. -/
def RoundMacro.constant : RoundMacro → UInt32
  | .r0 => 0x5A827999
  | .r1 => 0x5A827999
  | .r2 => 0x6ED9EBA1
  | .r3 => 0x8F1BBCDC
  | .r4 => 0xCA62C1D6

/-- The word of the schedule a macro works with, which it stores first. -/
def RoundMacro.block : RoundMacro → WorkspaceBlock → ℕ → WorkspaceBlock
  | .r0 => shablk0
  | .r1 | .r2 | .r3 | .r4 => shablk

/-- One line of `Transform`: a macro and its arguments. -/
structure Operation where
  mac : RoundMacro
  v : Var
  w : Var
  x : Var
  y : Var
  z : Var
  i : ℕ
deriving DecidableEq

/-- `z += mix(w,x,y) + SHABLK(i) + constant + ROL32(v,5); w = ROL32(w,30)` -/
def Operation.run (op : Operation) (work : Vars × WorkspaceBlock) : Vars × WorkspaceBlock :=
  let s := work.1
  let l := op.mac.block work.2 op.i
  let s := s.set op.z (s.get op.z + (op.mac.mix (s.get op.w) (s.get op.x) (s.get op.y) +
    l[op.i % 16] + op.mac.constant + rol32 (s.get op.v) 5))
  (s.set op.w (rol32 (s.get op.w) 30), l)

section
open Var RoundMacro

/-- The eighty lines. -/
def operations : List Operation := [
  .mk r0 a b c d e 0, .mk r0 e a b c d 1, .mk r0 d e a b c 2, .mk r0 c d e a b 3,
  .mk r0 b c d e a 4, .mk r0 a b c d e 5, .mk r0 e a b c d 6, .mk r0 d e a b c 7,
  .mk r0 c d e a b 8, .mk r0 b c d e a 9, .mk r0 a b c d e 10, .mk r0 e a b c d 11,
  .mk r0 d e a b c 12, .mk r0 c d e a b 13, .mk r0 b c d e a 14, .mk r0 a b c d e 15,
  .mk r1 e a b c d 16, .mk r1 d e a b c 17, .mk r1 c d e a b 18, .mk r1 b c d e a 19,
  .mk r2 a b c d e 20, .mk r2 e a b c d 21, .mk r2 d e a b c 22, .mk r2 c d e a b 23,
  .mk r2 b c d e a 24, .mk r2 a b c d e 25, .mk r2 e a b c d 26, .mk r2 d e a b c 27,
  .mk r2 c d e a b 28, .mk r2 b c d e a 29, .mk r2 a b c d e 30, .mk r2 e a b c d 31,
  .mk r2 d e a b c 32, .mk r2 c d e a b 33, .mk r2 b c d e a 34, .mk r2 a b c d e 35,
  .mk r2 e a b c d 36, .mk r2 d e a b c 37, .mk r2 c d e a b 38, .mk r2 b c d e a 39,
  .mk r3 a b c d e 40, .mk r3 e a b c d 41, .mk r3 d e a b c 42, .mk r3 c d e a b 43,
  .mk r3 b c d e a 44, .mk r3 a b c d e 45, .mk r3 e a b c d 46, .mk r3 d e a b c 47,
  .mk r3 c d e a b 48, .mk r3 b c d e a 49, .mk r3 a b c d e 50, .mk r3 e a b c d 51,
  .mk r3 d e a b c 52, .mk r3 c d e a b 53, .mk r3 b c d e a 54, .mk r3 a b c d e 55,
  .mk r3 e a b c d 56, .mk r3 d e a b c 57, .mk r3 c d e a b 58, .mk r3 b c d e a 59,
  .mk r4 a b c d e 60, .mk r4 e a b c d 61, .mk r4 d e a b c 62, .mk r4 c d e a b 63,
  .mk r4 b c d e a 64, .mk r4 a b c d e 65, .mk r4 e a b c d 66, .mk r4 d e a b c 67,
  .mk r4 c d e a b 68, .mk r4 b c d e a 69, .mk r4 a b c d e 70, .mk r4 e a b c d 71,
  .mk r4 d e a b c 72, .mk r4 c d e a b 73, .mk r4 b c d e a 74, .mk r4 a b c d e 75,
  .mk r4 e a b c d 76, .mk r4 d e a b c 77, .mk r4 c d e a b 78, .mk r4 b c d e a 79]

end

structure CSHA1 where
  mState : Vector UInt32 5
  mCount0 : UInt32
  mCount1 : UInt32
  mBuffer : List UInt8
  mDigest : List UInt8
deriving DecidableEq

namespace CSHA1

/-- `Reset`.  The buffer and the digest stay. -/
def reset (h : CSHA1) : CSHA1 :=
  { h with
    mState := #v[0x67452301, 0xEFCDAB89, 0x98BADCFE, 0x10325476, 0xC3D2E1F0]
    mCount0 := 0
    mCount1 := 0 }

/-- The constructor, over whatever bytes the buffer and the digest hold. -/
def new (mBuffer mDigest : List UInt8) : CSHA1 :=
  reset { mState := Vector.replicate 5 0, mCount0 := 0, mCount1 := 0, mBuffer, mDigest }

/-- The working variables behind the eighty lines. -/
def workingVars (vars : Vars) (block : WorkspaceBlock) : Vars :=
  (operations.foldl (fun work op => op.run work) (vars, block)).1

/-- `Transform`, of the 64 bytes at `buffer`. -/
def transform (state : Vector UInt32 5) (buffer : List UInt8) : Vector UInt32 5 :=
  let vars := workingVars ⟨state[0], state[1], state[2], state[3], state[4]⟩ (workspaceBlock buffer)
  #v[state[0] + vars.a, state[1] + vars.b, state[2] + vars.c, state[3] + vars.d,
    state[4] + vars.e]

/-- The `n` bytes from `i` on of a block that is read. -/
def readAt (data : List UInt8) (i n : ℕ) : Option (List UInt8) :=
  if i + n ≤ data.length then some (slice data i n) else none

/-- `memcpy(&m_buffer[j], &data[i], n)` -/
def copyIn (buffer : List UInt8) (j : ℕ) (data : List UInt8) (i n : ℕ) : Option (List UInt8) :=
  if i + n ≤ data.length ∧ j + n ≤ buffer.length then some (blit buffer j (slice data i n))
  else none

/-- `for(; i + 63 < len; i += 64) Transform(m_state, &data[i])` -/
def transformLoop (data : List UInt8) (len : UInt32) :
    ℕ → UInt32 → Vector UInt32 5 → Option (UInt32 × Vector UInt32 5)
  | 0, _, _ => none
  | turns + 1, i, state =>
    if i + 63 < len then
      (readAt data i.toNat 64).bind fun block =>
        transformLoop data len turns (i + 64) (transform state block)
    else some (i, state)

/-- `Update` -/
def update (h : CSHA1) (data : List UInt8) (len : UInt32) : Option CSHA1 := do
  let j := (h.mCount0 >>> 3) &&& 63
  let mCount0 := h.mCount0 + (len <<< 3)
  let mCount1 := (if mCount0 < len <<< 3 then h.mCount1 + 1 else h.mCount1) + (len >>> 29)
  let h := { h with mCount0, mCount1 }
  if 63 < j + len then
    let i := 64 - j
    let mBuffer ← copyIn h.mBuffer j.toNat data 0 i.toNat
    let (i, mState) ← transformLoop data len (len.toNat / 64 + 1) i (transform h.mState mBuffer)
    let mBuffer ← copyIn mBuffer 0 data i.toNat (len - i).toNat
    pure { h with mState, mBuffer }
  else
    let mBuffer ← copyIn h.mBuffer j.toNat data 0 len.toNat
    pure { h with mBuffer }

/-- `while ((m_count[0] & 504) != 448) Update((UINT_8 *)"\0", 1)` -/
def zeroLoop : ℕ → CSHA1 → Option CSHA1
  | 0, _ => none
  | turns + 1, h =>
    if h.mCount0 &&& 504 ≠ 448 then (h.update [0] 1).bind (zeroLoop turns) else some h

/-- `Final`.  What is wiped is wiped through `Transform` as well, so the state it
leaves is no state to go on from. -/
def final (h : CSHA1) : Option CSHA1 := do
  let finalcount := (List.range 8).map fun i =>
    (((if 4 ≤ i then h.mCount0 else h.mCount1) >>> UInt32.ofNat ((3 - i % 4) * 8)) &&& 255).toUInt8
  let h ← h.update [0x80] 1
  let h ← zeroLoop 64 h
  let h ← h.update finalcount 8
  let mDigest := [h.mState[0], h.mState[1], h.mState[2], h.mState[3], h.mState[4]].flatMap
    fun word => (List.range 4).map fun i =>
      ((word >>> UInt32.ofNat ((3 - i) * 8)) &&& 255).toUInt8
  let mBuffer := List.replicate 64 0
  pure { mState := transform (Vector.replicate 5 0) mBuffer, mCount0 := 0, mCount1 := 0,
         mBuffer, mDigest }

/-- `GetHash` -/
def getHash (h : CSHA1) : List UInt8 := h.mDigest

/-- Consecutive reads of `HashFile` from a file, each one hashed. -/
def hashChunks : ℕ → CSHA1 → List UInt8 → Option CSHA1
  | 0, h, rest =>
    if rest.length ≠ 0 then h.update rest (UInt32.ofNat rest.length) else some h
  | blocks + 1, h, rest =>
    (h.update (rest.take 8000) 8000).bind fun h => hashChunks blocks h (rest.drop 8000)

/-- `HashFile`: what it returns and the hash after it.  The file is its contents, if
there is a name and it can be opened. -/
def hashFile (h : CSHA1) (file : Option (List UInt8)) : Option (Bool × CSHA1) :=
  match file with
  | none => some (false, h)
  | some contents =>
    (hashChunks (contents.length / 8000) h contents).map fun h => (true, h)

end CSHA1

/-! ### `CSHA1` computes SHA-1

The eighty lines of `Transform` are one line under a rotation of the roles of its
variables: after line `i` the variable in role `k` holds word `k` of the standard's
state (`roles`), and the sixteen words of the block are the last sixteen of the
schedule (`Window`). -/

def Var.nth : ℕ → Var
  | 0 => .a
  | 1 => .b
  | 2 => .c
  | 3 => .d
  | _ => .e

/-- The variable in role `k` of line `i`. -/
def role (i k : ℕ) : Var := .nth ((k + 4 * i) % 5)

/-- The macro of line `i`. -/
def roundMacro (i : ℕ) : RoundMacro :=
  if i < 16 then .r0 else if i < 20 then .r1 else if i < 40 then .r2 else if i < 60 then .r3
  else .r4

/-- Line `i`. -/
def operation (i : ℕ) : Operation :=
  ⟨roundMacro i, role i 0, role i 1, role i 2, role i 3, role i 4, i⟩

/-- The first `n` lines. -/
def lines (n : ℕ) : List Operation := (List.range n).map operation

theorem operations_eq : operations = lines 80 := by decide +kernel

/-- The variables in the order of their roles in line `i`. -/
def roles (i : ℕ) (s : Vars) : Sha1.Words :=
  ⟨s.get (role i 0), s.get (role i 1), s.get (role i 2), s.get (role i 3), s.get (role i 4)⟩

/-- Before line `i` the block holds the last words of the schedule that were made,
and the bytes of the others as they were read. -/
structure Window (m : ℕ → UInt32) (i : ℕ) (l : WorkspaceBlock) : Prop where
  made : ∀ j < i, i ≤ j + 16 → l[j % 16] = Sha1.schedule m j
  read : ∀ j (hj : j < 16), i ≤ j →
    (rol32 l[j] 24 &&& 0xFF00FF00) ||| (rol32 l[j] 8 &&& 0x00FF00FF) = m j

theorem rol32_eq (x : UInt32) {n : ℕ} (hpos : 0 < n) (hn : n < 32) :
    rol32 x (UInt32.ofNat n) = Word32.rotl x n :=
  (Word32.rotl_eq x hpos hn).symm

/-- The functions of the macros are those of the standard. -/
theorem mix_roundMacro (i : ℕ) (x y z : UInt32) :
    (roundMacro i).mix x y z = Sha1.fn i x y z := by
  have hchoose : (x &&& (y ^^^ z)) ^^^ z = Sha1.choose x y z := by
    apply UInt32.toBitVec_inj.mp
    apply BitVec.eq_of_getElem_eq
    intro i hi
    simp only [Sha1.choose, UInt32.toBitVec_xor, UInt32.toBitVec_and, UInt32.toBitVec_or,
      UInt32.toBitVec_not, BitVec.getElem_xor, BitVec.getElem_and, BitVec.getElem_or,
      BitVec.getElem_not]
    grind
  have hmajority : ((x ||| y) &&& z) ||| (x &&& y) = Sha1.majority x y z := by
    apply UInt32.toBitVec_inj.mp
    apply BitVec.eq_of_getElem_eq
    intro i hi
    simp only [Sha1.majority, UInt32.toBitVec_and, UInt32.toBitVec_or, BitVec.getElem_and,
      BitVec.getElem_or]
    grind
  unfold roundMacro Sha1.fn
  split_ifs <;> first | omega | exact hchoose | exact hmajority | rfl

theorem constant_roundMacro (i : ℕ) : (roundMacro i).constant = Sha1.const i := by
  unfold roundMacro Sha1.const
  split_ifs <;> first | omega | rfl

theorem Window.turn {m : ℕ → UInt32} {i : ℕ} {l : WorkspaceBlock} (h : Window m i l)
    (hi : i < 16) :
    (shablk0 l i)[i % 16] = Sha1.schedule m i ∧ Window m (i + 1) (shablk0 l i) := by
  have hmod : i % 16 = i := Nat.mod_eq_of_lt hi
  have hword : (shablk0 l i)[i % 16] = Sha1.schedule m i := by
    rw [Sha1.schedule_of_lt hi, shablk0, Vector.getElem_set_self, ← h.read i hi le_rfl]
    simp only [hmod]
  refine ⟨hword, fun j hj hlate => ?_, fun j hj hlate => ?_⟩
  · rcases Nat.lt_succ_iff_lt_or_eq.mp hj with hlt | rfl
    · have hne : i % 16 ≠ j % 16 := by omega
      rw [shablk0, Vector.getElem_set_ne _ _ hne, h.made j hlt (by omega)]
    · exact hword
  · have hne : i % 16 ≠ j := by omega
    simp only [shablk0, Vector.getElem_set_ne _ _ hne]
    exact h.read j hj (by omega)

theorem Window.expand {m : ℕ → UInt32} {i : ℕ} {l : WorkspaceBlock} (h : Window m i l)
    (hi : 16 ≤ i) :
    (shablk l i)[i % 16] = Sha1.schedule m i ∧ Window m (i + 1) (shablk l i) := by
  -- the four words that the macro reads are those made 3, 8, 14 and 16 lines before
  have hback : ∀ k ≤ 16, 0 < k → l[(i - k) % 16] = Sha1.schedule m (i - k) :=
    fun k hle hpos => h.made (i - k) (by omega) (by omega)
  have h3 : l[(i + 13) % 16] = Sha1.schedule m (i - 3) := by
    rw [← hback 3 (by omega) (by omega)]
    congr 1
    omega
  have h8 : l[(i + 8) % 16] = Sha1.schedule m (i - 8) := by
    rw [← hback 8 (by omega) (by omega)]
    congr 1
    omega
  have h14 : l[(i + 2) % 16] = Sha1.schedule m (i - 14) := by
    rw [← hback 14 (by omega) (by omega)]
    congr 1
    omega
  have h16 : l[i % 16] = Sha1.schedule m (i - 16) := by
    rw [← hback 16 le_rfl (by omega)]
    congr 1
    omega
  have hword : (shablk l i)[i % 16] = Sha1.schedule m i := by
    rw [Sha1.schedule_of_le hi, shablk, Vector.getElem_set_self, h3, h8, h14, h16]
    exact rol32_eq _ Nat.one_pos (by decide : 1 < 32)
  refine ⟨hword, fun j hj hlate => ?_, fun j hj hlate => absurd hj (by omega)⟩
  rcases Nat.lt_succ_iff_lt_or_eq.mp hj with hlt | rfl
  · have hne : i % 16 ≠ j % 16 := by omega
    rw [shablk, Vector.getElem_set_ne _ _ hne, h.made j hlt (by omega)]
  · exact hword

/-- A macro puts the next word of the schedule in its place. -/
theorem Window.block {m : ℕ → UInt32} {i : ℕ} {l : WorkspaceBlock} (h : Window m i l) :
    ((roundMacro i).block l i)[i % 16] = Sha1.schedule m i ∧
      Window m (i + 1) ((roundMacro i).block l i) := by
  by_cases hi : i < 16
  · have hmac : roundMacro i = .r0 := if_pos hi
    rw [hmac]
    exact h.turn hi
  · have hmac : (roundMacro i).block = shablk := by
      unfold roundMacro
      rw [if_neg hi]
      split_ifs <;> rfl
    rw [hmac]
    exact h.expand (Nat.not_lt.mp hi)

theorem role_inj (i : ℕ) {k k' : ℕ} (hk : k < 5) (hk' : k' < 5) :
    role i k = role i k' ↔ k = k' := by
  have hnth : ∀ x < 5, ∀ y < 5, Var.nth x = Var.nth y → x = y := by decide
  constructor
  · intro h
    have := hnth _ (Nat.mod_lt _ (by decide)) _ (Nat.mod_lt _ (by decide)) h
    omega
  · rintro rfl
    rfl

/-- One line later every variable is in the next role. -/
theorem roles_set (i : ℕ) (s : Vars) (t u : UInt32) :
    roles (i + 1) ((s.set (role i 4) t).set (role i 1) u) =
      ⟨t, s.get (role i 0), u, s.get (role i 2), s.get (role i 3)⟩ := by
  have hnext : ∀ k, role (i + 1) (k + 1) = role i k := by
    intro k
    unfold role
    congr 1
    omega
  have hfirst : role (i + 1) 0 = role i 4 := by
    unfold role
    congr 1
    omega
  simp only [roles, hfirst, hnext 0, hnext 1, hnext 2, hnext 3, Vars.get_set]
  simp [role_inj]

/-- **One line is one step.** -/
theorem roles_run {m : ℕ → UInt32} {i : ℕ} {work : Vars × WorkspaceBlock}
    (h : Window m i work.2) :
    roles (i + 1) ((operation i).run work).1 =
        Sha1.step (Sha1.schedule m) i (roles i work.1) ∧
      Window m (i + 1) ((operation i).run work).2 := by
  obtain ⟨hword, hwindow⟩ := h.block
  refine ⟨?_, hwindow⟩
  have hfive : ∀ x, rol32 x 5 = Word32.rotl x 5 := fun x => rol32_eq x (by decide) (by decide : 5 < 32)
  have hthirty : ∀ x, rol32 x 30 = Word32.rotl x 30 :=
    fun x => rol32_eq x (by decide) (by decide : 30 < 32)
  have hother : ∀ t, (work.1.set (role i 4) t).get (role i 1) = work.1.get (role i 1) := by
    intro t
    rw [Vars.get_set, if_neg]
    simp [role_inj]
  simp only [Operation.run, operation, hword]
  rw [roles_set, hother, mix_roundMacro, constant_roundMacro, hfive, hthirty]
  simp only [Sha1.step, roles]
  congr 1
  ac_rfl

/-- The first `n` lines are the first `n` steps. -/
theorem roles_lines {m : ℕ → UInt32} {work : Vars × WorkspaceBlock} (h : Window m 0 work.2)
    (n : ℕ) :
    roles n ((lines n).foldl (fun work op => op.run work) work).1 =
        Sha1.steps (Sha1.schedule m) n (roles 0 work.1) ∧
      Window m n ((lines n).foldl (fun work op => op.run work) work).2 := by
  induction n with
  | zero => exact ⟨rfl, h⟩
  | succ n ih =>
      obtain ⟨hroles, hwindow⟩ := ih
      have hlines : lines (n + 1) = lines n ++ [operation n] := by
        rw [lines, List.range_succ, List.map_append, List.map_singleton, lines]
      rw [hlines, List.foldl_append, List.foldl_cons, List.foldl_nil]
      obtain ⟨hstep, hwindow'⟩ := roles_run hwindow
      exact ⟨by rw [hstep, hroles, Sha1.steps], hwindow'⟩

theorem window_workspaceBlock {buffer : List UInt8} (h : 64 ≤ buffer.length) :
    Window (Sha1.word buffer) 0 (workspaceBlock buffer) := by
  refine ⟨fun j hj => absurd hj (Nat.not_lt_zero j), fun j hj _ => ?_⟩
  have hfour : (slice buffer (4 * j) 4).length = 4 := length_slice (by omega)
  have hword : (workspaceBlock buffer)[j] = Word32.ofLE (slice buffer (4 * j) 4) := by
    rw [workspaceBlock, Vector.getElem_ofFn]
  obtain ⟨b0, b1, b2, b3, hbytes⟩ := List.length_eq_four.mp hfour
  rw [hword, Sha1.word, hbytes, Word32.ofBE_four, ← rol32_eq _ (by decide) (by decide : 24 < 32),
    ← rol32_eq _ (by decide) (by decide : 8 < 32)]
  rfl

namespace CSHA1

/-- The words of `m_state`. -/
def words (state : Vector UInt32 5) : Sha1.Words :=
  ⟨state[0], state[1], state[2], state[3], state[4]⟩

theorem workingVars_eq (vars : Vars) {buffer : List UInt8} (h : 64 ≤ buffer.length) :
    roles 80 (workingVars vars (workspaceBlock buffer)) =
      Sha1.steps (Sha1.schedule (Sha1.word buffer)) 80 (roles 0 vars) := by
  have hwindow : Window (Sha1.word buffer) 0 (vars, workspaceBlock buffer).2 :=
    window_workspaceBlock h
  rw [workingVars, operations_eq, (roles_lines hwindow 80).1]

theorem words_add_vars (state : Vector UInt32 5) (vars : Vars) :
    words #v[state[0] + vars.a, state[1] + vars.b, state[2] + vars.c, state[3] + vars.d,
      state[4] + vars.e] =
      Sha1.add (words state) ⟨vars.a, vars.b, vars.c, vars.d, vars.e⟩ := rfl

/-- **`Transform` is the compression of the standard.** -/
theorem words_transform (state : Vector UInt32 5) {buffer : List UInt8}
    (h : 64 ≤ buffer.length) :
    words (transform state buffer) = Sha1.compress (words state) buffer := by
  have hend : ∀ s : Vars, roles 80 s = ⟨s.a, s.b, s.c, s.d, s.e⟩ := fun s => rfl
  have hbegin : roles 0 ⟨state[0], state[1], state[2], state[3], state[4]⟩ = words state := rfl
  have hvars := workingVars_eq ⟨state[0], state[1], state[2], state[3], state[4]⟩ h
  rw [hend, hbegin] at hvars
  rw [transform, words_add_vars, Sha1.compress, ← hvars]

end CSHA1

end Brynet
