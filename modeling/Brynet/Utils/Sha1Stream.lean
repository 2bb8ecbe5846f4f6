import Brynet.Utils.Sha1

/-!
# Hashing piece by piece with `CSHA1`

`Holds init h message` ties the object to the bytes it was given: the counters are
their number of bits, the state is that of the whole blocks among them, and the rest
waits at the head of the buffer.  Every `Update` keeps it, for data of any length that
the 32-bit arithmetic of `Update` can bear.

`update_of_short` and `update_of_full` are the two ways through `Update`: the data fits
behind what waits, or it fills the block up, goes on by whole blocks and leaves a rest.
`Holds.final` is `Final`, two calls of `Update` and a loop of them, up to the length.
-/

namespace Brynet.CSHA1

open Blocks Memory

/-- The object after `message`, from the state `init` on. -/
structure Holds (init : Sha1.Words) (h : CSHA1) (message : List UInt8) : Prop where
  count : h.mCount0.toNat + 2 ^ 32 * h.mCount1.toNat = 8 * message.length % 2 ^ 64
  state : words h.mState = (absorb 64 Sha1.compress init message).1
  waiting : (absorb 64 Sha1.compress init message).2 <+: h.mBuffer
  length : h.mBuffer.length = 64

theorem Holds.empty {init : Sha1.Words} {h : CSHA1} (h0 : h.mCount0 = 0) (h1 : h.mCount1 = 0)
    (hstate : words h.mState = init) (hlength : h.mBuffer.length = 64) : Holds init h [] := by
  have hnil : absorb 64 Sha1.compress init [] = (init, []) := absorb_of_lt (by decide)
  refine ⟨by rw [h0, h1]; rfl, ?_, ?_, hlength⟩
  · rw [hnil, hstate]
  · rw [hnil]
    exact List.nil_prefix

/-! ### The counters -/

theorem count_add (c0 c1 len : UInt32) :
    (c0 + (len <<< 3)).toNat + 2 ^ 32 *
        ((if c0 + (len <<< 3) < len <<< 3 then c1 + 1 else c1) + (len >>> 29)).toNat =
      (c0.toNat + 2 ^ 32 * c1.toNat + 8 * len.toNat) % 2 ^ 64 := by
  have h0 := c0.toNat_lt
  have h1 := c1.toNat_lt
  have hlen := len.toNat_lt
  have hlow : (len <<< 3).toNat = 8 * len.toNat % 2 ^ 32 := by
    simp [Nat.shiftLeft_eq, Nat.mul_comm]
  have hhigh : (len >>> 29).toNat = len.toNat / 2 ^ 29 := by
    simp [Nat.shiftRight_eq_div_pow]
  have hsum : (c0 + (len <<< 3)).toNat = (c0.toNat + 8 * len.toNat) % 2 ^ 32 := by
    rw [UInt32.toNat_add, hlow]
    omega
  split
  · next h =>
      rw [UInt32.lt_iff_toNat_lt, hsum, hlow] at h
      rw [hsum, UInt32.toNat_add, UInt32.toNat_add, hhigh, UInt32.toNat_one]
      omega
  · next h =>
      rw [UInt32.lt_iff_toNat_lt, hsum, hlow] at h
      rw [hsum, UInt32.toNat_add, hhigh]
      omega

theorem Holds.offset {init : Sha1.Words} {h : CSHA1} {message : List UInt8}
    (hold : Holds init h message) :
    ((h.mCount0 >>> 3) &&& 63).toNat = message.length % 64 := by
  have hcount := hold.count
  have h0 := h.mCount0.toNat_lt
  have hand : ∀ x : ℕ, x &&& 63 = x % 64 := fun x => Nat.and_two_pow_sub_one_eq_mod x 6
  have hshift : (h.mCount0 >>> 3).toNat = h.mCount0.toNat / 8 := by
    simp [Nat.shiftRight_eq_div_pow]
  rw [UInt32.toNat_and, hshift, UInt32.toNat_ofNat, hand]
  omega

/-! ### One `Update` -/

theorem copyIn_eq {buffer data : List UInt8} {j i n : ℕ} (hread : i + n ≤ data.length)
    (hwrite : j + n ≤ buffer.length) :
    copyIn buffer j data i n = some (blit buffer j (slice data i n)) := if_pos ⟨hread, hwrite⟩

/-- The blocks that are hashed without being copied. -/
theorem transformLoop_eq {data : List UInt8} {len : UInt32} (hdata : len.toNat ≤ data.length)
    (hlen : len.toNat + 64 ≤ 2 ^ 32) (turns : ℕ) {i : UInt32} (state : Vector UInt32 5)
    (hi : i.toNat ≤ len.toNat) (hturns : (len.toNat - i.toNat) / 64 < turns) :
    ∃ i' state', transformLoop data len turns i state = some (i', state') ∧
      i'.toNat ≤ len.toNat ∧
      (words state', slice data i'.toNat (len.toNat - i'.toNat)) =
        absorb 64 Sha1.compress (words state) (slice data i.toNat (len.toNat - i.toNat)) := by
  induction turns generalizing i state with
  | zero => exact absurd hturns (Nat.not_lt_zero _)
  | succ turns ih =>
      have hrest : (slice data i.toNat (len.toNat - i.toNat)).length = len.toNat - i.toNat :=
        length_slice (by omega)
      have hnext : (i + 63).toNat = i.toNat + 63 := by
        simp only [UInt32.toNat_add, UInt32.reduceToNat]
        omega
      have hguard : i + 63 < len ↔ i.toNat + 63 < len.toNat := by
        rw [UInt32.lt_iff_toNat_lt, hnext]
      rw [transformLoop]
      by_cases hblock : i + 63 < len
      · have hroom : i.toNat + 64 ≤ len.toNat := hguard.mp hblock
        have hi' : (i + 64).toNat = i.toNat + 64 := by
          simp only [UInt32.toNat_add, UInt32.reduceToNat]
          omega
        have hread : readAt data i.toNat 64 = some (slice data i.toNat 64) :=
          if_pos (by omega)
        have hlength : (slice data i.toNat 64).length = 64 := length_slice (by omega)
        obtain ⟨i', state', hloop, hle, habsorb⟩ :=
          ih (transform state (slice data i.toNat 64)) (i := i + 64) (by omega) (by omega)
        refine ⟨i', state', ?_, hle, ?_⟩
        · rw [if_pos hblock, hread, Option.bind_some, hloop]
        · rw [habsorb, words_transform _ hlength.ge, hi']
          exact (absorb_slice (by decide) _ _ hroom hdata).symm
      · have hshort : len.toNat < i.toNat + 64 := by
          rw [hguard] at hblock
          omega
        refine ⟨i, state, if_neg hblock, hi, ?_⟩
        rw [absorb_of_lt (by omega)]

/-- Writing behind what waits. -/
theorem blit_waiting (waiting rest cells : List UInt8) :
    blit (waiting ++ rest) waiting.length cells =
      waiting ++ cells ++ rest.drop cells.length := by
  rw [blit, List.take_left, List.drop_append, List.drop_eq_nil_of_le (by omega), List.nil_append,
    Nat.add_sub_cancel_left]

/-- What `Update` makes of `h`, but for the buffer and the state. -/
def counted (h : CSHA1) (len : UInt32) : CSHA1 :=
  { h with
    mCount0 := h.mCount0 + (len <<< 3)
    mCount1 := (if h.mCount0 + (len <<< 3) < len <<< 3 then h.mCount1 + 1 else h.mCount1) +
      (len >>> 29) }

/-- The test of `Update`: neither the sum nor the room it leaves wraps around. -/
theorem fills_iff {j len : UInt32} (hj : j.toNat < 64) (hlen : len.toNat + 64 ≤ 2 ^ 32) :
    63 < j + len ↔ 64 ≤ j.toNat + len.toNat := by
  simp only [UInt32.lt_iff_toNat_lt, UInt32.toNat_add, UInt32.reduceToNat]
  omega

theorem toNat_room {j : UInt32} (hj : j.toNat < 64) : (64 - j).toNat = 64 - j.toNat := by
  have hle : j ≤ 64 := by
    simp only [UInt32.le_iff_toNat_le, UInt32.reduceToNat]
    omega
  rw [UInt32.toNat_sub_of_le _ _ hle]
  rfl

/-- A copy behind what waits. -/
theorem copyIn_waiting {waiting rest data : List UInt8} {n : ℕ} (hdata : n ≤ data.length)
    (hrest : n ≤ rest.length) :
    copyIn (waiting ++ rest) waiting.length data 0 n =
      some (waiting ++ data.take n ++ rest.drop n) := by
  have hroom : waiting.length + n ≤ (waiting ++ rest).length := by
    rw [List.length_append]
    omega
  rw [copyIn_eq (by omega) hroom, blit_waiting, slice, List.drop_zero,
    List.length_take_of_le hdata]

section

variable {h : CSHA1} {data waiting rest : List UInt8} {len : UInt32}

/-- Data that does not fill the buffer. -/
theorem update_of_short (hbuffer : waiting ++ rest = h.mBuffer) (hlength : h.mBuffer.length = 64)
    (hj : ((h.mCount0 >>> 3) &&& 63).toNat = waiting.length) (hdata : len.toNat ≤ data.length)
    (hshort : waiting.length + len.toNat < 64) :
    h.update data len = some { h.counted len with
      mBuffer := waiting ++ data.take len.toNat ++ rest.drop len.toNat } := by
  have hroom : waiting.length + rest.length = 64 := by
    rw [← hbuffer, List.length_append] at hlength
    exact hlength
  unfold CSHA1.update
  simp only
  generalize (h.mCount0 >>> 3) &&& 63 = j at hj
  have hguard : ¬63 < j + len := by
    rw [fills_iff (by omega) (by omega)]
    omega
  have hcopy : copyIn h.mBuffer j.toNat data 0 len.toNat =
      some (waiting ++ data.take len.toNat ++ rest.drop len.toNat) := by
    rw [← hbuffer, hj]
    exact copyIn_waiting hdata (by omega)
  rw [if_neg hguard, hcopy]
  rfl

/-- Data that fills the buffer at least once. -/
theorem update_of_full (hbuffer : waiting ++ rest = h.mBuffer) (hlength : h.mBuffer.length = 64)
    (hj : ((h.mCount0 >>> 3) &&& 63).toNat = waiting.length) (hdata : len.toNat ≤ data.length)
    (hlen : len.toNat + 64 ≤ 2 ^ 32) (hwaiting : waiting.length < 64)
    (hfull : 64 ≤ waiting.length + len.toNat) :
    ∃ mState mBuffer, h.update data len = some { h.counted len with mState, mBuffer } ∧
      words mState = (absorb 64 Sha1.compress (words h.mState)
        (waiting ++ data.take len.toNat)).1 ∧
      (absorb 64 Sha1.compress (words h.mState) (waiting ++ data.take len.toNat)).2 <+: mBuffer ∧
      mBuffer.length = 64 := by
  have hroom : waiting.length + rest.length = 64 := by
    rw [← hbuffer, List.length_append] at hlength
    exact hlength
  unfold CSHA1.update
  simp only
  generalize (h.mCount0 >>> 3) &&& 63 = j at hj
  have hguard : 63 < j + len := by
    rw [fills_iff (by omega) hlen]
    omega
  have hfirst : (64 - j).toNat = rest.length := by
    rw [toNat_room (by omega)]
    omega
  generalize 64 - j = i at hfirst
  have hfilled : (data.take i.toNat).length = i.toNat := List.length_take_of_le (by omega)
  have hcopy : copyIn h.mBuffer j.toNat data 0 i.toNat = some (waiting ++ data.take i.toNat) := by
    have hnone : rest.drop i.toNat = [] := List.drop_eq_nil_of_le (by omega)
    rw [← hbuffer, hj, copyIn_waiting (by omega) (by omega), hnone, List.append_nil]
  have hblock : (waiting ++ data.take i.toNat).length = 64 := by
    rw [List.length_append, hfilled]
    omega
  obtain ⟨i', state', hloop, hle', habsorb⟩ := transformLoop_eq hdata hlen (len.toNat / 64 + 1)
    (i := i) (transform h.mState (waiting ++ data.take i.toNat)) (by omega) (by omega)
  have hkept : absorb 64 Sha1.compress (words h.mState) (waiting ++ data.take len.toNat) =
      (words state', slice data i'.toNat (len.toNat - i'.toNat)) := by
    have hdrop : slice data i.toNat (len.toNat - i.toNat) =
        (data.take len.toNat).drop i.toNat := by
      rw [slice, List.drop_take]
    have htake : (data.take len.toNat).take i.toNat = data.take i.toNat := by
      rw [List.take_take, Nat.min_eq_left (by omega)]
    rw [habsorb, words_transform _ hblock.ge, hdrop, ← htake,
      ← absorb_block (by decide) (by rw [htake, hblock]), List.append_assoc,
      List.take_append_drop]
  have hlast : (slice data i'.toNat (len.toNat - i'.toNat)).length < 64 := by
    have hlt := length_waiting (n := 64) (by decide) Sha1.compress (words h.mState)
      (waiting ++ data.take len.toNat)
    simp only [hkept] at hlt
    omega
  have hremain : (slice data i'.toNat (len.toNat - i'.toNat)).length = len.toNat - i'.toNat :=
    length_slice (by omega)
  have hrest : (len - i').toNat = len.toNat - i'.toNat :=
    UInt32.toNat_sub_of_le _ _ (UInt32.le_iff_toNat_le.mpr hle')
  have hcopy' : copyIn (waiting ++ data.take i.toNat) 0 data i'.toNat (len.toNat - i'.toNat) =
      some (blit (waiting ++ data.take i.toNat) 0 (slice data i'.toNat (len.toNat - i'.toNat))) :=
    copyIn_eq (by omega) (by omega)
  rw [if_pos hguard, hcopy]
  simp only [Option.bind_eq_bind, Option.bind_some, hloop, hrest, hcopy']
  refine ⟨_, _, rfl, ?_, ?_, ?_⟩
  · rw [hkept]
  · rw [hkept]
    exact blit_waiting [] _ _ ▸ List.prefix_append _ _
  · rw [length_blit (by omega), hblock]

end

/-- **`Update` keeps the tie**: it reads the `len` bytes at `data`, writes nothing
outside its buffer, and afterwards holds the longer message. -/
theorem Holds.update {init : Sha1.Words} {h : CSHA1} {message : List UInt8}
    (hold : Holds init h message) (data : List UInt8) (len : UInt32)
    (hdata : len.toNat ≤ data.length) (hlen : len.toNat + 64 ≤ 2 ^ 32) :
    ∃ h', h.update data len = some h' ∧ Holds init h' (message ++ data.take len.toNat) ∧
      h'.mDigest = h.mDigest := by
  obtain ⟨rest, hbuffer⟩ := hold.waiting
  have hwaiting := length_waiting (n := 64) (by decide) Sha1.compress init message
  have hj := hold.offset.trans hwaiting.symm
  have hcut := absorb_append (n := 64) (by decide) Sha1.compress init message
    (data.take len.toNat)
  have htaken : (data.take len.toNat).length = len.toNat := List.length_take_of_le hdata
  have hcount : (h.counted len).mCount0.toNat + 2 ^ 32 * (h.counted len).mCount1.toNat =
      8 * (message ++ data.take len.toNat).length % 2 ^ 64 := by
    rw [counted, count_add, hold.count, List.length_append, htaken]
    omega
  rw [← hold.state] at hcut
  generalize (absorb 64 Sha1.compress init message).2 = waiting at *
  by_cases hfull : waiting.length + len.toNat < 64
  · have hkept : absorb 64 Sha1.compress init (message ++ data.take len.toNat) =
        (words h.mState, waiting ++ data.take len.toNat) := by
      rw [hcut, absorb_of_lt (by rwa [List.length_append, htaken])]
    have hlength := hold.length
    rw [← hbuffer, List.length_append] at hlength
    refine ⟨_, update_of_short hbuffer hold.length hj hdata hfull, ⟨hcount, ?_, ?_, ?_⟩, rfl⟩
    · rw [hkept]
      rfl
    · rw [hkept]
      exact List.prefix_append _ _
    · simp only [List.length_append, htaken, List.length_drop]
      omega
  · obtain ⟨mState, mBuffer, hupdate, hstate, hhead, hlength⟩ :=
      update_of_full hbuffer hold.length hj hdata hlen (by omega) (by omega)
    rw [← hcut] at hstate hhead
    exact ⟨_, hupdate, ⟨hcount, hstate, hhead, hlength⟩, rfl⟩

/-! ### `Final` -/

theorem byte_word (x : UInt32) {k : ℕ} (hk : k < 4) :
    ((x >>> UInt32.ofNat (k * 8)) &&& 255).toUInt8 = UInt8.ofNat (x.toNat / 256 ^ k) := by
  have hand : ∀ v : ℕ, v &&& 255 = v % 256 := fun v => Nat.and_two_pow_sub_one_eq_mod v 8
  apply UInt8.toNat_inj.mp
  interval_cases k <;> simp [hand, Nat.shiftRight_eq_div_pow]

/-- A word as `Final` writes it. -/
theorem bytes_word (x : UInt32) :
    ((List.range 4).map fun i => ((x >>> UInt32.ofNat ((3 - i) * 8)) &&& 255).toUInt8) =
      Word32.toBE x := by
  have hbytes : ∀ i ∈ List.range 4, ((x >>> UInt32.ofNat ((3 - i) * 8)) &&& 255).toUInt8 =
      UInt8.ofNat (x.toNat / 256 ^ (3 - i)) :=
    fun i _ => byte_word x (by omega)
  rw [List.map_congr_left hbytes]
  simp [Word32.toBE, Endian.toBE, Endian.toLE, List.range_succ, Nat.div_div_eq_div_mul]

/-- `finalcount` is the number of bits, most significant byte first. -/
theorem Holds.finalcount {init : Sha1.Words} {h : CSHA1} {message : List UInt8}
    (hold : Holds init h message) :
    ((List.range 8).map fun i => (((if 4 ≤ i then h.mCount0 else h.mCount1) >>>
      UInt32.ofNat ((3 - i % 4) * 8)) &&& 255).toUInt8) =
      Endian.toBE 8 (8 * message.length) := by
  have h0 := h.mCount0.toNat_lt
  have h1 := h.mCount1.toNat_lt
  have hcount := hold.count
  have hsplit : (List.range 8).map (fun i => (((if 4 ≤ i then h.mCount0 else h.mCount1) >>>
      UInt32.ofNat ((3 - i % 4) * 8)) &&& 255).toUInt8) =
      Word32.toBE h.mCount1 ++ Word32.toBE h.mCount0 := by
    rw [← bytes_word, ← bytes_word]
    rfl
  have hwords : Endian.toLE 8 (8 * message.length) =
      Endian.toLE 4 h.mCount0.toNat ++ Endian.toLE 4 h.mCount1.toNat := by
    have hmod := Endian.toLE_ofLE (Endian.toLE 8 (8 * message.length))
    rw [Endian.length_toLE, Endian.ofLE_toLE] at hmod
    rw [← Endian.toLE_add 4 4 (by simpa using h0), ← hmod]
    congr 1
    omega
  rw [hsplit, Endian.toBE, hwords, List.reverse_append]
  rfl

/-- The test of the loop in `Final`: does the length field end the block? -/
theorem and_504 {c len : ℕ} (h : c = 8 * len % 2 ^ 32) : c &&& 504 = 448 ↔ len % 64 = 56 := by
  have hmask : c &&& 504 = 8 * (len % 64) := by
    have hlow : ∀ q < 64, 8 * q &&& 504 = 8 * q := by decide
    have hc : c &&& 511 = 8 * (len % 64) := by
      rw [show (511 : ℕ) = 2 ^ 9 - 1 from rfl, Nat.and_two_pow_sub_one_eq_mod]
      omega
    calc c &&& 504 = c &&& (511 &&& 504) := rfl
      _ = 8 * (len % 64) &&& 504 := by rw [← Nat.land_assoc, hc]
      _ = _ := hlow _ (Nat.mod_lt _ (by decide))
  omega

/-- The zeros up to the length field. -/
theorem Holds.zeroLoop {init : Sha1.Words} {h : CSHA1} {message : List UInt8}
    (hold : Holds init h message) (turns k : ℕ) (hk : (message.length + k) % 64 = 56)
    (hlt : k < 64) (hturns : k < turns) :
    ∃ h', CSHA1.zeroLoop turns h = some h' ∧
      Holds init h' (message ++ List.replicate k 0) := by
  induction turns generalizing h message k with
  | zero => exact absurd hturns (Nat.not_lt_zero _)
  | succ turns ih =>
      have hcount := hold.count
      have h0 := h.mCount0.toNat_lt
      have hguard : h.mCount0 &&& 504 = 448 ↔ message.length % 64 = 56 := by
        rw [← UInt32.toNat_inj, UInt32.toNat_and]
        exact and_504 (by omega)
      rw [CSHA1.zeroLoop]
      cases k with
      | zero =>
          rw [if_neg (not_not.mpr (hguard.mpr hk)), List.replicate_zero, List.append_nil]
          exact ⟨h, rfl, hold⟩
      | succ k =>
          have hmore : h.mCount0 &&& 504 ≠ 448 := by
            rw [Ne, hguard]
            omega
          obtain ⟨h', hupdate, hold', -⟩ := hold.update [0] 1 (by decide) (by decide)
          have hone : message ++ List.take (UInt32.toNat 1) [0] = message ++ [0] := rfl
          rw [hone] at hold'
          obtain ⟨h'', hloop, hold''⟩ := ih hold' k
            (by rw [List.length_append, List.length_singleton]; omega) (by omega) (by omega)
          refine ⟨h'', by rw [if_pos hmore, hupdate, Option.bind_some, hloop], ?_⟩
          rwa [List.append_assoc, List.singleton_append, ← List.replicate_succ] at hold''

/-- **`Final`** sets the digest of the closed message, and leaves the state that wiping
with `Transform` makes. -/
theorem Holds.final {init : Sha1.Words} {h : CSHA1} {message : List UInt8}
    (hold : Holds init h message) :
    ∃ h', h.final = some h' ∧
      h'.mDigest = Sha1.digest (Blocks.hash 64 Sha1.compress init
        (fun len => Endian.toBE 8 (8 * len)) message) ∧
      Holds (Sha1.compress ⟨0, 0, 0, 0, 0⟩ (List.replicate 64 0)) h' [] := by
  have hfield := hold.finalcount
  obtain ⟨h1, hmark, hold1, -⟩ := hold.update [0x80] 1 (by decide) (by decide)
  have hone : message ++ List.take (UInt32.toNat 1) [0x80] = message ++ [0x80] := rfl
  rw [hone] at hold1
  obtain ⟨h2, hzeros, hold2⟩ := hold1.zeroLoop 64 (zeros 64 8 message.length)
    (by rw [List.length_append, List.length_singleton, zeros]; omega) (by rw [zeros]; omega)
    (by rw [zeros]; omega)
  obtain ⟨h3, hlast, hold3, -⟩ := hold2.update (Endian.toBE 8 (8 * message.length)) 8
    (by rw [Endian.length_toBE]; rfl) (by decide)
  have hclosed : (message ++ [0x80] ++ List.replicate (zeros 64 8 message.length) 0) ++
      (Endian.toBE 8 (8 * message.length)).take (UInt32.toNat 8) =
      message ++ closing 64 (Endian.toBE 8 (8 * message.length)) message.length := by
    rw [List.take_of_length_le (by rw [Endian.length_toBE]; rfl), closing, Endian.length_toBE]
    simp
  rw [hclosed] at hold3
  unfold CSHA1.final
  rw [hfield]
  simp only [Option.bind_eq_bind, hmark, Option.bind_some, hzeros, hlast, bytes_word]
  refine ⟨_, rfl, ?_, ?_⟩
  · rw [Blocks.hash, ← hold3.state]
    rfl
  · refine Holds.empty rfl rfl ?_ List.length_replicate
    rw [words_transform _ List.length_replicate.ge]
    rfl

/-! ### Whole runs -/

/-- The chunks of a file are the file. -/
theorem Holds.hashChunks {init : Sha1.Words} {h : CSHA1} {message : List UInt8}
    (hold : Holds init h message) (rest : List UInt8) :
    ∃ h', CSHA1.hashChunks (rest.length / 8000) h rest = some h' ∧
      Holds init h' (message ++ rest) ∧ h'.mDigest = h.mDigest := by
  induction hblocks : rest.length / 8000 generalizing h message rest with
  | zero =>
      have hlt : rest.length < 8000 := by omega
      have hlen : (UInt32.ofNat rest.length).toNat = rest.length := by
        rw [UInt32.toNat_ofNat']
        omega
      rw [CSHA1.hashChunks]
      split
      · have hupdate := hold.update rest (UInt32.ofNat rest.length) hlen.le (by omega)
        rwa [hlen, List.take_length] at hupdate
      · next hempty =>
          rw [List.length_eq_zero_iff.mp (not_not.mp hempty), List.append_nil]
          exact ⟨h, rfl, hold, rfl⟩
  | succ blocks ih =>
      have hle : 8000 ≤ rest.length := by omega
      have hchunk : (rest.take 8000).length = 8000 := List.length_take_of_le hle
      obtain ⟨h', hupdate, hold', hdigest⟩ :=
        hold.update (rest.take 8000) 8000 hchunk.ge (by decide)
      obtain ⟨h'', hchunks, hold'', hdigest'⟩ := ih hold' (rest.drop 8000) (by
        rw [List.length_drop]
        omega)
      refine ⟨h'', ?_, ?_, hdigest'.trans hdigest⟩
      · rw [CSHA1.hashChunks, hupdate, Option.bind_some, hchunks]
      · have htake : (rest.take 8000).take (UInt32.toNat 8000) = rest.take 8000 :=
          List.take_of_length_le hchunk.le
        rwa [htake, List.append_assoc, List.take_append_drop] at hold''

/-- The public functions of the class. -/
inductive Call
  | reset
  | update (data : List UInt8) (len : UInt32)
  | hashFile (file : Option (List UInt8))
  | final

def call (h : CSHA1) : Call → Option CSHA1
  | .reset => some h.reset
  | .update data len => h.update data len
  | .hashFile file => (h.hashFile file).map Prod.snd
  | .final => h.final

/-- There are `len` bytes of data, and few enough for sums of 32 bits. -/
def Call.Fits : Call → Prop
  | .update data len => len.toNat ≤ data.length ∧ len.toNat + 64 ≤ 2 ^ 32
  | _ => True

/-- What the object is for: the message given so far, over the state that it began
with, and the hash of the last one that was finished. -/
structure Hashing where
  init : Sha1.Words
  message : List UInt8
  digest : List UInt8

def Hashing.next (s : Hashing) : Call → Hashing
  | .reset => { s with init := Sha1.init, message := [] }
  | .update data len => { s with message := s.message ++ data.take len.toNat }
  | .hashFile none => s
  | .hashFile (some contents) => { s with message := s.message ++ contents }
  | .final =>
    { init := Sha1.compress ⟨0, 0, 0, 0, 0⟩ (List.replicate 64 0)
      message := []
      digest := Sha1.digest (Blocks.hash 64 Sha1.compress s.init
        (fun len => Endian.toBE 8 (8 * len)) s.message) }

/-- One call. -/
theorem Holds.call {s : Hashing} {h : CSHA1} (hold : Holds s.init h s.message)
    (hdigest : h.mDigest = s.digest) {c : Call} (hfits : c.Fits) :
    ∃ h', h.call c = some h' ∧ Holds (s.next c).init h' (s.next c).message ∧
      h'.mDigest = (s.next c).digest := by
  cases c with
  | reset => exact ⟨_, rfl, Holds.empty rfl rfl rfl hold.length, hdigest⟩
  | update data len =>
      obtain ⟨h', hupdate, hold', hsame⟩ := hold.update data len hfits.1 hfits.2
      exact ⟨h', hupdate, hold', hsame.trans hdigest⟩
  | hashFile file =>
      cases file with
      | none => exact ⟨h, rfl, hold, hdigest⟩
      | some contents =>
          obtain ⟨h', hchunks, hold', hsame⟩ := hold.hashChunks contents
          refine ⟨h', ?_, hold', hsame.trans hdigest⟩
          rw [CSHA1.call, CSHA1.hashFile, hchunks]
          rfl
  | final =>
      obtain ⟨h', hfinal, hnew, hold'⟩ := hold.final
      exact ⟨h', hfinal, hold', hnew⟩

theorem Holds.calls {calls : List Call} (hfits : ∀ c ∈ calls, c.Fits) {s : Hashing} {h : CSHA1}
    (hold : Holds s.init h s.message) (hdigest : h.mDigest = s.digest) :
    ∃ h', calls.foldlM CSHA1.call h = some h' ∧
      h'.mDigest = (calls.foldl Hashing.next s).digest := by
  induction calls generalizing s h with
  | nil => exact ⟨h, rfl, hdigest⟩
  | cons c calls ih =>
      obtain ⟨hc, hrest⟩ := List.forall_mem_cons.mp hfits
      obtain ⟨h', hcall, hold', hdigest'⟩ := hold.call hdigest hc
      obtain ⟨h'', hcalls, hend⟩ := ih hrest hold' hdigest'
      refine ⟨h'', ?_, hend⟩
      rw [List.foldlM_cons, hcall]
      exact hcalls

/-- **`CSHA1` computes SHA-1.**  Whatever is called after the constructor, no copy
leaves a block, every loop ends, and `GetHash` returns the hash of the last message
that was finished: of all the bytes that `Update` and `HashFile` were given for it,
however they were cut. -/
theorem calls_hash {mBuffer mDigest : List UInt8} (hbuffer : mBuffer.length = 64)
    {calls : List Call} (hfits : ∀ c ∈ calls, c.Fits) :
    ∃ h, calls.foldlM CSHA1.call (new mBuffer mDigest) = some h ∧
      h.getHash = (calls.foldl Hashing.next ⟨Sha1.init, [], mDigest⟩).digest := by
  have hnew : Holds Sha1.init (new mBuffer mDigest) [] := Holds.empty rfl rfl rfl hbuffer
  exact Holds.calls hfits hnew rfl

/-- A message in two pieces, and another one after `Reset`. -/
theorem calls_hash_twice :
    ∃ h, [.update [97] 1, .update [98, 99, 100] 2, .final, .reset, .hashFile (some [97]),
        .final].foldlM CSHA1.call (new (List.replicate 64 0) []) = some h ∧
      h.getHash = Sha1.sha1 [97] := by
  obtain ⟨h, hrun, hhash⟩ := @calls_hash (List.replicate 64 0) [] List.length_replicate
    [.update [97] 1, .update [98, 99, 100] 2, .final, .reset, .hashFile (some [97]), .final]
    (by simp [Call.Fits])
  refine ⟨h, hrun, hhash.trans ?_⟩
  simp only [List.foldl, Hashing.next, List.nil_append, Sha1.sha1]

end Brynet.CSHA1
