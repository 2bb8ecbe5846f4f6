import Brynet.Lib.MachineInt
import Brynet.Lib.Md5
import Mathlib.Data.List.TakeWhile

/-!
# The hash of `utils/md5calc.cpp`

`MD5_String2binary` of a string that ends with a null character.  Up to the length field
it does what RFC 1321 says; the field itself is right below 2 ^ 29 bytes only.
-/

namespace Brynet.Md5calc

open Blocks MachineInt Memory

/-- The table `T`. -/
def table : List UInt32 :=
  [0xd76aa478, 0xe8c7b756, 0x242070db, 0xc1bdceee,
    0xf57c0faf, 0x4787c62a, 0xa8304613, 0xfd469501,
    0x698098d8, 0x8b44f7af, 0xffff5bb1, 0x895cd7be,
    0x6b901122, 0xfd987193, 0xa679438e, 0x49b40821,
    0xf61e2562, 0xc040b340, 0x265e5a51, 0xe9b6c7aa,
    0xd62f105d, 0x2441453, 0xd8a1e681, 0xe7d3fbc8,
    0x21e1cde6, 0xc33707d6, 0xf4d50d87, 0x455a14ed,
    0xa9e3e905, 0xfcefa3f8, 0x676f02d9, 0x8d2a4c8a,
    0xfffa3942, 0x8771f681, 0x6d9d6122, 0xfde5380c,
    0xa4beea44, 0x4bdecfa9, 0xf6bb4b60, 0xbebfbc70,
    0x289b7ec6, 0xeaa127fa, 0xd4ef3085, 0x4881d05,
    0xd9d4d039, 0xe6db99e5, 0x1fa27cf8, 0xc4ac5665,
    0xf4292244, 0x432aff97, 0xab9423a7, 0xfc93a039,
    0x655b59c3, 0x8f0ccc92, 0xffeff47d, 0x85845dd1,
    0x6fa87e4f, 0xfe2ce6e0, 0xa3014314, 0x4e0811a1,
    0xf7537e82, 0xbd3af235, 0x2ad7d2bb, 0xeb86d391]

/-- `ROTATE_LEFT` -/
def rotateLeft (x n : UInt32) : UInt32 := (x <<< n) ||| (x >>> (32 - n))

/-- The variables of `MD5_Round_Calculate`. -/
inductive Var
  | a | b | c | d
deriving Repr, DecidableEq

structure Vars where
  a : UInt32
  b : UInt32
  c : UInt32
  d : UInt32
deriving Repr, DecidableEq

namespace Vars

def get (s : Vars) : Var → UInt32
  | .a => s.a
  | .b => s.b
  | .c => s.c
  | .d => s.d

def set (s : Vars) (x : Var) (val : UInt32) : Vars :=
  match x with
  | .a => { s with a := val }
  | .b => { s with b := val }
  | .c => { s with c := val }
  | .d => { s with d := val }

@[simp] theorem get_set (s : Vars) (x y : Var) (val : UInt32) :
    (s.set x val).get y = if y = x then val else s.get y := by
  cases x <;> cases y <;> rfl

end Vars

/-- The functions `F`, `G`, `H` and `I`, which make the difference between `Round1`, `Round2`,
`Round3` and `Round4`. -/
inductive Mix
  | f | g | h | i
deriving Repr, DecidableEq

def Mix.apply : Mix → UInt32 → UInt32 → UInt32 → UInt32
  | .f, x, y, z => (x &&& y) ||| (~~~x &&& z)
  | .g, x, y, z => (x &&& z) ||| (y &&& ~~~z)
  | .h, x, y, z => x ^^^ y ^^^ z
  | .i, x, y, z => y ^^^ (x ||| ~~~z)

/-- One call of a round function: its variables, `k`, `s` and `i`. -/
structure RoundCall where
  mix : Mix
  a : Var
  b : Var
  c : Var
  d : Var
  k : ℕ
  s : ℕ
  i : ℕ
deriving DecidableEq

/-- `Round`, and the assignment of its result. -/
def RoundCall.run (call : RoundCall) (x : ℕ → UInt32) (vars : Vars) : Vars :=
  vars.set call.a (vars.get call.b + rotateLeft (vars.get call.a +
    call.mix.apply (vars.get call.b) (vars.get call.c) (vars.get call.d) +
    x call.k + table.getD call.i 0) (UInt32.ofNat call.s))

section
open Var Mix

/-- The calls of `MD5_Round_Calculate`. -/
def roundCalls : List RoundCall := [
  .mk f a b c d 0 7 0, .mk f d a b c 1 12 1, .mk f c d a b 2 17 2, .mk f b c d a 3 22 3,
  .mk f a b c d 4 7 4, .mk f d a b c 5 12 5, .mk f c d a b 6 17 6, .mk f b c d a 7 22 7,
  .mk f a b c d 8 7 8, .mk f d a b c 9 12 9, .mk f c d a b 10 17 10, .mk f b c d a 11 22 11,
  .mk f a b c d 12 7 12, .mk f d a b c 13 12 13, .mk f c d a b 14 17 14, .mk f b c d a 15 22 15,
  .mk g a b c d 1 5 16, .mk g d a b c 6 9 17, .mk g c d a b 11 14 18, .mk g b c d a 0 20 19,
  .mk g a b c d 5 5 20, .mk g d a b c 10 9 21, .mk g c d a b 15 14 22, .mk g b c d a 4 20 23,
  .mk g a b c d 9 5 24, .mk g d a b c 14 9 25, .mk g c d a b 3 14 26, .mk g b c d a 8 20 27,
  .mk g a b c d 13 5 28, .mk g d a b c 2 9 29, .mk g c d a b 7 14 30, .mk g b c d a 12 20 31,
  .mk h a b c d 5 4 32, .mk h d a b c 8 11 33, .mk h c d a b 11 16 34, .mk h b c d a 14 23 35,
  .mk h a b c d 1 4 36, .mk h d a b c 4 11 37, .mk h c d a b 7 16 38, .mk h b c d a 10 23 39,
  .mk h a b c d 13 4 40, .mk h d a b c 0 11 41, .mk h c d a b 3 16 42, .mk h b c d a 6 23 43,
  .mk h a b c d 9 4 44, .mk h d a b c 12 11 45, .mk h c d a b 15 16 46, .mk h b c d a 2 23 47,
  .mk i a b c d 0 6 48, .mk i d a b c 7 10 49, .mk i c d a b 14 15 50, .mk i b c d a 5 21 51,
  .mk i a b c d 12 6 52, .mk i d a b c 3 10 53, .mk i c d a b 10 15 54, .mk i b c d a 1 21 55,
  .mk i a b c d 8 6 56, .mk i d a b c 15 10 57, .mk i c d a b 6 15 58, .mk i b c d a 13 21 59,
  .mk i a b c d 4 6 60, .mk i d a b c 11 10 61, .mk i c d a b 2 15 62, .mk i b c d a 9 21 63]

end

/-- `X[k]`, of a block of 64 bytes. -/
def decodeWord (block : List UInt8) (k : ℕ) : UInt32 :=
  (block.getD (4 * k) 0).toUInt32 ||| ((block.getD (4 * k + 1) 0).toUInt32 <<< 8) |||
    ((block.getD (4 * k + 2) 0).toUInt32 <<< 16) ||| ((block.getD (4 * k + 3) 0).toUInt32 <<< 24)

/-- The variables behind the calls. -/
def runCalls (x : ℕ → UInt32) (vars : Vars) : Vars :=
  roundCalls.foldl (fun vars call => call.run x vars) vars

/-- `MD5_Round_Calculate` -/
def md5RoundCalculate (block : List UInt8) (s : Vars) : Vars :=
  let vars := runCalls (decodeWord block) s
  ⟨vars.a + s.a, vars.b + s.b, vars.c + s.c, vars.d + s.d⟩

/-- `for (i=string_byte_len; 64<=i; i-=64,pstring+=64) MD5_Round_Calculate(pstring, A,B,C,D)`;
`none` is a read behind the end of the string's memory. -/
def blockLoop (string : List UInt8) : ℕ → ℤ → ℕ → Vars → Option (ℕ × Vars)
  | 0, _, _, _ => none
  | turns + 1, i, pstring, digest =>
    if 64 ≤ i then
      if pstring + 64 ≤ string.length then
        blockLoop string turns (i - 64) (pstring + 64)
          (md5RoundCalculate (slice string pstring 64) digest)
      else none
    else some (pstring, digest)

/-- `strncpy(padding_message, pstring, copy_len)` and the `memset` behind it. -/
def paddingMessage (string : List UInt8) (pstring copyLen : ℕ) : List UInt8 :=
  let copied := (slice string pstring copyLen).takeWhile (· ≠ 0)
  copied ++ List.replicate (64 - copied.length) 0

/-- The length field, from the number of bytes. -/
def lengthField (stringByteLen : UInt32) : List UInt8 :=
  let high := if 4294967295 / 8 < stringByteLen then (stringByteLen - 4294967295 / 8) * 8 else 0
  Word32.toLE (stringByteLen * 8) ++ Word32.toLE high

/-- `strlen` -/
def strlen (string : List UInt8) : ℕ := (string.takeWhile (· ≠ 0)).length

/-- `MD5_String2binary` -/
def md5String2binary (string : List UInt8) : Option (List UInt8) := do
  let stringByteLen := UInt32.ofNat (strlen string)
  let (pstring, digest) ← blockLoop string (stringByteLen.toNat / 64 + 1)
    (toInt32 stringByteLen.toNat) 0 ⟨0x67452301, 0xefcdab89, 0x98badcfe, 0x10325476⟩
  let copyLen := (stringByteLen % 64).toNat
  let padding := paddingMessage string pstring copyLen
  let padding := padding.set copyLen (padding.getD copyLen 0 ||| 0x80)
  let (padding, digest) :=
    if 56 ≤ copyLen then
      (blit padding 0 (List.replicate 56 0), md5RoundCalculate padding digest)
    else (padding, digest)
  let padding := blit padding 56 (lengthField stringByteLen)
  let digest := md5RoundCalculate padding digest
  pure ([digest.a, digest.b, digest.c, digest.d].flatMap Word32.toLE)

/-! ### A block -/

def Var.nth : ℕ → Var
  | 0 => .a
  | 1 => .b
  | 2 => .c
  | _ => .d

/-- The variable in role `k` of call `t`. -/
def role (t k : ℕ) : Var := .nth ((k + 3 * t) % 4)

def mix (t : ℕ) : Mix := if t < 16 then .f else if t < 32 then .g else if t < 48 then .h else .i

/-- Call `t`. -/
def roundCall (t : ℕ) : RoundCall :=
  ⟨mix t, role t 0, role t 1, role t 2, role t 3, Md5.index t, Md5.shift t, t⟩

/-- The first `n` calls. -/
def calls (n : ℕ) : List RoundCall := (List.range n).map roundCall

theorem roundCalls_eq : roundCalls = calls 64 := by decide +kernel

/-- The variables in the order of their roles in call `t`. -/
def roles (t : ℕ) (s : Vars) : Md5.Words :=
  ⟨s.get (role t 0), s.get (role t 1), s.get (role t 2), s.get (role t 3)⟩

theorem mix_apply (t : ℕ) (x y z : UInt32) : (mix t).apply x y z = Md5.fn t x y z := by
  unfold mix Md5.fn
  split_ifs <;> rfl

theorem shift_lt (t : ℕ) : 0 < Md5.shift t ∧ Md5.shift t < 32 := by
  have hamounts : ∀ amounts ∈ [[7, 12, 17, 22], [5, 9, 14, 20], [4, 11, 16, 23], [6, 10, 15, 21]],
      ∀ i < 4, 0 < amounts.getD i 0 ∧ amounts.getD i 0 < 32 := by decide
  have hi : t % 4 < 4 := Nat.mod_lt t (by decide)
  unfold Md5.shift
  split_ifs <;> exact hamounts _ (by decide) _ hi

theorem role_inj (t : ℕ) {k k' : ℕ} (hk : k < 4) (hk' : k' < 4) :
    role t k = role t k' ↔ k = k' := by
  have hnth : ∀ x < 4, ∀ y < 4, Var.nth x = Var.nth y → x = y := by decide
  constructor
  · intro h
    have := hnth _ (Nat.mod_lt _ (by decide)) _ (Nat.mod_lt _ (by decide)) h
    omega
  · rintro rfl
    rfl

/-- One call later every variable is in the next role. -/
theorem roles_set (t : ℕ) (s : Vars) (val : UInt32) :
    roles (t + 1) (s.set (role t 0) val) =
      ⟨s.get (role t 3), val, s.get (role t 1), s.get (role t 2)⟩ := by
  have hnext : ∀ k, role (t + 1) (k + 1) = role t k := by
    intro k
    unfold role
    congr 1
    omega
  have hfirst : role (t + 1) 0 = role t 3 := by
    unfold role
    congr 1
    omega
  simp only [roles, hfirst, hnext 0, hnext 1, hnext 2, Vars.get_set]
  simp [role_inj]

/-- **One call is one step.** -/
theorem roles_run (x : ℕ → UInt32) (t : ℕ) (s : Vars) :
    roles (t + 1) ((roundCall t).run x s) = Md5.step x t (roles t s) := by
  have hrotate : ∀ y, rotateLeft y (UInt32.ofNat (Md5.shift t)) = Word32.rotl y (Md5.shift t) :=
    fun y => (Word32.rotl_eq y (shift_lt t).1 (shift_lt t).2).symm
  have htable : table = Md5.table := rfl
  rw [RoundCall.run]
  simp only [roundCall]
  rw [roles_set, mix_apply, hrotate, htable]
  rfl

theorem roles_calls (x : ℕ → UInt32) (s : Vars) (n : ℕ) :
    roles n ((calls n).foldl (fun vars call => call.run x vars) s) =
      Md5.steps x n (roles 0 s) := by
  induction n with
  | zero => rfl
  | succ n ih =>
      have hcalls : calls (n + 1) = calls n ++ [roundCall n] := by
        rw [calls, List.range_succ, List.map_append, List.map_singleton, calls]
      rw [hcalls, List.foldl_append, List.foldl_cons, List.foldl_nil, roles_run, ih, Md5.steps]

/-- The words of the digest. -/
def words (s : Vars) : Md5.Words := ⟨s.a, s.b, s.c, s.d⟩

theorem decodeWord_eq {block : List UInt8} (h : block.length = 64) {k : ℕ} (hk : k < 16) :
    decodeWord block k = Md5.word block k := by
  have hget : ∀ j < 4, (slice block (4 * k) 4).getD j 0 = block.getD (4 * k + j) 0 := by
    intro j hj
    simp only [List.getD_eq_getElem?_getD, slice, List.getElem?_take, hj, if_true,
      List.getElem?_drop]
  have hfour : (slice block (4 * k) 4).length = 4 := length_slice (by omega)
  obtain ⟨b0, b1, b2, b3, hbytes⟩ := List.length_eq_four.mp hfour
  have h0 := hget 0 (by decide)
  have h1 := hget 1 (by decide)
  have h2 := hget 2 (by decide)
  have h3 := hget 3 (by decide)
  rw [hbytes] at h0 h1 h2 h3
  rw [Md5.word, hbytes, Word32.ofLE_four, decodeWord, ← h1, ← h2, ← h3]
  rw [Nat.add_zero] at h0
  rw [← h0]
  rfl

theorem words_add (vars s : Vars) :
    words ⟨vars.a + s.a, vars.b + s.b, vars.c + s.c, vars.d + s.d⟩ =
      Md5.add (words vars) (words s) := rfl

/-- **`MD5_Round_Calculate` is the compression of the standard.** -/
theorem words_md5RoundCalculate {block : List UInt8} (h : block.length = 64) (s : Vars) :
    words (md5RoundCalculate block s) = Md5.compress (words s) block := by
  have hcalls : words (runCalls (decodeWord block) s) =
      Md5.steps (Md5.word block) 64 (words s) := by
    have hend : ∀ s : Vars, roles 64 s = words s := fun s => rfl
    have hbegin : roles 0 s = words s := rfl
    have hrun := roles_calls (decodeWord block) s 64
    rw [hend, hbegin, ← roundCalls_eq, Md5.steps_congr fun k hk => decodeWord_eq h hk] at hrun
    rw [runCalls, hrun]
  rw [md5RoundCalculate, words_add, Md5.compress, ← hcalls]

/-! ### A string -/

/-- The whole blocks of the string. -/
theorem blockLoop_eq {string : List UInt8} {len : ℕ} (hlen : len ≤ string.length) (turns : ℕ)
    {pstring : ℕ} (s : Vars) (hp : pstring ≤ len) (hturns : (len - pstring) / 64 < turns) :
    ∃ pstring' s', blockLoop string turns ((len - pstring : ℕ) : ℤ) pstring s =
        some (pstring', s') ∧ pstring' ≤ len ∧
      (words s', slice string pstring' (len - pstring')) =
        absorb 64 Md5.compress (words s) (slice string pstring (len - pstring)) := by
  induction turns generalizing pstring s with
  | zero => exact absurd hturns (Nat.not_lt_zero _)
  | succ turns ih =>
      have hrest : (slice string pstring (len - pstring)).length = len - pstring :=
        length_slice (by omega)
      rw [blockLoop]
      by_cases hblock : 64 ≤ len - pstring
      · have hlength : (slice string pstring 64).length = 64 := length_slice (by omega)
        have hnext : ((len - pstring : ℕ) : ℤ) - 64 = ((len - (pstring + 64) : ℕ) : ℤ) := by omega
        obtain ⟨pstring', s', hloop, hle, habsorb⟩ :=
          @ih (pstring + 64) (md5RoundCalculate (slice string pstring 64) s) (by omega) (by omega)
        refine ⟨pstring', s', ?_, hle, ?_⟩
        · rw [if_pos (by omega), if_pos (by omega), hnext, hloop]
        · rw [habsorb, words_md5RoundCalculate hlength]
          exact (absorb_slice (by decide) _ _ (by omega) hlen).symm
      · refine ⟨pstring, s, if_neg (by omega), hp, ?_⟩
        rw [absorb_of_lt (by omega)]

theorem ne_zero_of_not_mem {w : List UInt8} (hzero : 0 ∉ w) :
    ∀ c ∈ w, decide (c ≠ 0) = true :=
  fun _ hc => decide_eq_true fun hc0 => hzero (hc0 ▸ hc)

/-- What waits, with the mark behind it, in a block of zeros. -/
def marked (w : List UInt8) : List UInt8 := w ++ 0x80 :: List.replicate (63 - w.length) 0

theorem length_marked {w : List UInt8} (h : w.length < 64) : (marked w).length = 64 := by
  simp only [marked, List.length_append, List.length_cons, List.length_replicate]
  omega

/-- The last bytes of the string are copied and marked. -/
theorem set_paddingMessage {string w : List UInt8} {pstring : ℕ}
    (hw : slice string pstring w.length = w) (hzero : 0 ∉ w) (hlt : w.length < 64) :
    (paddingMessage string pstring w.length).set w.length
        ((paddingMessage string pstring w.length).getD w.length 0 ||| 0x80) = marked w := by
  have hcopied : w.takeWhile (· ≠ 0) = w :=
    List.takeWhile_eq_self_iff.mpr (ne_zero_of_not_mem hzero)
  have hzeros : List.replicate (64 - w.length) (0 : UInt8) =
      0 :: List.replicate (63 - w.length) 0 := by
    rw [← List.replicate_succ]
    congr 1
    omega
  rw [paddingMessage, hw, hcopied, hzeros, List.set_append_right _ _ le_rfl, Nat.sub_self,
    List.getD_append_right _ _ _ _ le_rfl, Nat.sub_self, List.getD_cons_zero, List.set_cons_zero]
  congr 1

/-- The length field at the end of a block. -/
theorem blit_field {xs field : List UInt8} (hlength : xs.length = 64) (hfield : field.length = 8) :
    blit xs 56 field = xs.take 56 ++ field := by
  rw [blit, hfield, List.drop_eq_nil_of_le hlength.le, List.append_nil]

/-- The block that is used again is one of zeros and the length field. -/
theorem blit_zeros_field {xs field : List UInt8} (hlength : xs.length = 64)
    (hfield : field.length = 8) :
    blit (blit xs 0 (List.replicate 56 0)) 56 field = List.replicate 56 0 ++ field := by
  have hzeros : blit xs 0 (List.replicate 56 0) = List.replicate 56 0 ++ xs.drop 56 := by
    rw [blit, List.take_zero, List.nil_append, Nat.zero_add, List.length_replicate]
  have hcleared : (blit xs 0 (List.replicate 56 0)).length = 64 := by
    rw [length_blit (by rw [List.length_replicate, hlength]; decide), hlength]
  rw [blit_field hcleared hfield, hzeros, List.take_left' List.length_replicate]

@[simp] theorem length_lengthField (len : UInt32) : (lengthField len).length = 8 := by
  rw [lengthField, List.length_append, Word32.length_toLE, Word32.length_toLE]

section

variable {w field : List UInt8} {len : ℕ}

/-- The mark, the zeros and the length field fit behind what waits. -/
theorem closing_of_short (hw : w.length = len % 64) (hfield : field.length = 8)
    (hshort : w.length < 56) : blit (marked w) 56 field = w ++ closing 64 field len := by
  have hzeros : zeros 64 8 len = 55 - w.length := by
    rw [zeros]
    omega
  have htake : (marked w).take 56 = w ++ 0x80 :: List.replicate (55 - w.length) 0 := by
    have hpos : 56 - w.length = (55 - w.length) + 1 := by omega
    rw [marked, List.take_append, List.take_of_length_le hshort.le, hpos, List.take_succ_cons,
      List.take_replicate, Nat.min_eq_left (by omega)]
  rw [blit_field (length_marked (by omega)) hfield, htake, closing, hfield, hzeros,
    List.append_assoc, List.cons_append]

/-- They do not fit, so the zeros fill a block and the field stands in the next one. -/
theorem closing_of_long (hw : w.length = len % 64) (hfield : field.length = 8)
    (hlong : 56 ≤ w.length) :
    marked w ++ (List.replicate 56 0 ++ field) = w ++ closing 64 field len := by
  have hzeros : zeros 64 8 len = (63 - w.length) + 56 := by
    rw [zeros]
    omega
  rw [marked, closing, hfield, hzeros, List.replicate_add, List.append_assoc, List.cons_append,
    List.append_assoc]

/-- What `MD5_String2binary` does behind the loop takes the one block or the two that close
the string. -/
theorem words_closing (s : Vars) (hw : w.length = len % 64) (hfield : field.length = 8)
    {last : List UInt8 × Vars}
    (hlast : (if 56 ≤ w.length then
        (blit (marked w) 0 (List.replicate 56 0), md5RoundCalculate (marked w) s)
      else (marked w, s)) = last) :
    words (md5RoundCalculate (blit last.1 56 field) last.2) =
      (absorb 64 Md5.compress (words s) (w ++ closing 64 field len)).1 := by
  have hblock : (marked w).length = 64 := length_marked (by omega)
  subst hlast
  split
  · next hlong =>
      have hend : (List.replicate 56 0 ++ field).length = 64 := by
        rw [List.length_append, List.length_replicate, hfield]
      dsimp only
      rw [blit_zeros_field hblock hfield, ← closing_of_long hw hfield hlong,
        absorb_block (by decide) hblock, absorb_single (by decide) hend,
        words_md5RoundCalculate hend, words_md5RoundCalculate hblock]
  · next hshort =>
      have hfill := closing_of_short hw hfield (Nat.not_le.mp hshort)
      have hend : (w ++ closing 64 field len).length = 64 := by
        rw [← hfill, length_blit (by rw [hfield, hblock]), hblock]
      dsimp only
      rw [hfill, absorb_single (by decide) hend, words_md5RoundCalculate hend]

end

/-- `MD5_String2binary` closes the string as the standard does, with the length field it has. -/
theorem md5String2binary_eq {message : List UInt8} (hzero : 0 ∉ message)
    (hlen : message.length < 2 ^ 31) (rest : List UInt8) :
    md5String2binary (message ++ 0 :: rest) =
      some (Md5.digest (Blocks.hash 64 Md5.compress Md5.init
        (fun len => lengthField (UInt32.ofNat len)) message)) := by
  have hstrlen : strlen (message ++ 0 :: rest) = message.length := by
    rw [strlen, List.takeWhile_append_of_pos (ne_zero_of_not_mem hzero),
      List.takeWhile_cons_of_neg (by decide), List.append_nil]
  have hnat : (UInt32.ofNat message.length).toNat = message.length := by
    rw [UInt32.toNat_ofNat']
    omega
  have hint : toInt32 message.length = ((message.length - 0 : ℕ) : ℤ) := toInt32_eq hlen
  have hcopy : ((UInt32.ofNat message.length) % 64).toNat = message.length % 64 := by
    rw [UInt32.toNat_mod, hnat]
    rfl
  -- the loop takes the whole blocks of the string
  obtain ⟨pstring, s, hloop, hle, habsorb⟩ := @blockLoop_eq (message ++ 0 :: rest) message.length
    (by simp) (message.length / 64 + 1) 0 ⟨0x67452301, 0xefcdab89, 0x98badcfe, 0x10325476⟩
    (Nat.zero_le _) (by omega)
  have hwhole : slice (message ++ 0 :: rest) 0 (message.length - 0) = message := by
    rw [slice, List.drop_zero, Nat.sub_zero, List.take_left]
  have hinit : words ⟨0x67452301, 0xefcdab89, 0x98badcfe, 0x10325476⟩ = Md5.init := rfl
  rw [hwhole, hinit] at habsorb
  have hcut := absorb_append (n := 64) (by decide) Md5.compress Md5.init message
    (closing 64 (lengthField (UInt32.ofNat message.length)) message.length)
  have hwaiting := length_waiting (n := 64) (by decide) Md5.compress Md5.init message
  rw [← habsorb] at hcut hwaiting
  dsimp only at hcut hwaiting
  -- what is left of it waits in `w`
  have hslice : (slice (message ++ 0 :: rest) pstring (message.length - pstring)).length =
      message.length - pstring := length_slice (by simp; omega)
  have hmem : 0 ∉ slice (message ++ 0 :: rest) pstring (message.length - pstring) := by
    rw [slice, List.drop_append_of_le_length hle, List.take_append_of_le_length (by simp)]
    exact fun h => hzero (List.mem_of_mem_drop (List.mem_of_mem_take h))
  generalize hw : slice (message ++ 0 :: rest) pstring (message.length - pstring) = w at *
  have hset := set_paddingMessage (w := w) (by rw [hslice, hw]) hmem (by omega)
  unfold md5String2binary
  simp only [hstrlen, hnat, hint, hloop, hcopy, Option.bind_eq_bind, Option.bind_some,
    ← hwaiting, hset]
  generalize hlast : (if 56 ≤ w.length then
      (blit (marked w) 0 (List.replicate 56 0), md5RoundCalculate (marked w) s)
    else (marked w, s)) = last
  have hdigest := words_closing s hwaiting (length_lengthField (UInt32.ofNat message.length)) hlast
  rw [Blocks.hash, hcut, ← hdigest]
  rfl

theorem toLE_inj {x y : ℕ} (hx : x < 2 ^ 32) (hy : y < 2 ^ 32) :
    Endian.toLE 4 x = Endian.toLE 4 y ↔ x = y := by
  constructor
  · intro h
    have hnat := congrArg Endian.ofLE h
    rw [Endian.ofLE_toLE, Endian.ofLE_toLE] at hnat
    omega
  · rintro rfl
    rfl

/-- The number of bits, as far as the code has it right. -/
theorem lengthField_eq_iff {len : ℕ} (h : len < 2 ^ 31) :
    lengthField (UInt32.ofNat len) = Md5.lengthField len ↔ len < 2 ^ 29 := by
  have hnat : (UInt32.ofNat len).toNat = len := by
    rw [UInt32.toNat_ofNat']
    omega
  have hlow : (UInt32.ofNat len * 8).toNat = 8 * len % 2 ^ 32 := by
    simp only [UInt32.toNat_mul, hnat, UInt32.reduceToNat, Nat.mul_comm]
  have hhigh : (if 4294967295 / 8 < UInt32.ofNat len then (UInt32.ofNat len - 4294967295 / 8) * 8
      else 0).toNat = if 2 ^ 29 ≤ len then (len - 536870911) * 8 % 2 ^ 32 else 0 := by
    have hmax : (4294967295 / 8 : UInt32) = 536870911 := by decide
    have hguard : 4294967295 / 8 < UInt32.ofNat len ↔ 2 ^ 29 ≤ len := by
      simp only [hmax, UInt32.lt_iff_toNat_lt, hnat, UInt32.reduceToNat]
      omega
    by_cases hlarge : 2 ^ 29 ≤ len
    · have hle : (536870911 : UInt32) ≤ UInt32.ofNat len := by
        simp only [UInt32.le_iff_toNat_le, hnat, UInt32.reduceToNat]
        omega
      rw [if_pos (hguard.mpr hlarge), if_pos hlarge, hmax, UInt32.toNat_mul,
        UInt32.toNat_sub_of_le _ _ hle, hnat]
      rfl
    · rw [if_neg (mt hguard.mp hlarge), if_neg hlarge]
      rfl
  have hwords : Endian.toLE 8 (8 * len) =
      Endian.toLE 4 (8 * len % 2 ^ 32) ++ Endian.toLE 4 (8 * len / 2 ^ 32) := by
    have hmod : 8 * len % 2 ^ 32 < 256 ^ 4 := Nat.mod_lt _ (by decide)
    rw [← Endian.toLE_add 4 4 hmod]
    congr 1
    omega
  rw [lengthField, Md5.lengthField, hwords, Word32.toLE, Word32.toLE, hlow, hhigh,
    List.append_cancel_left_eq, toLE_inj (by split <;> omega) (by omega)]
  split <;> omega

/-- **`MD5_String2binary` computes MD5** of the string before the null character, but for the
length field, which is right below 2 ^ 29 bytes only. -/
theorem md5String2binary_md5 {message : List UInt8} (hzero : 0 ∉ message)
    (hlen : message.length < 2 ^ 31) (rest : List UInt8) :
    (message.length < 2 ^ 29 →
      md5String2binary (message ++ 0 :: rest) = some (Md5.md5 message)) ∧
    md5String2binary (message ++ 0 :: rest) = some (Md5.digest (Blocks.hash 64 Md5.compress
      Md5.init (fun len => lengthField (UInt32.ofNat len)) message)) ∧
    (lengthField (UInt32.ofNat message.length) = Md5.lengthField message.length ↔
      message.length < 2 ^ 29) := by
  have heq := md5String2binary_eq hzero hlen rest
  refine ⟨fun hshort => ?_, heq, lengthField_eq_iff hlen⟩
  rw [heq, Md5.md5, Blocks.hash, Blocks.hash, (lengthField_eq_iff hlen).mpr hshort]

/-- The string "ab". -/
theorem md5String2binary_md5_ab : md5String2binary [97, 98, 0] = some (Md5.md5 [97, 98]) :=
  (@md5String2binary_md5 [97, 98] (by decide) (by decide) []).1 (by decide)

end Brynet.Md5calc
