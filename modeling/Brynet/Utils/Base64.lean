import Brynet.Lib.MachineInt
import Mathlib.Data.List.Nodup
import Mathlib.Tactic.IntervalCases

/-!
# `utils/base64.cpp`

`base64_encode` takes three bytes at a time, `base64_decode` four characters, both
with a last group that may be short.  Over the alphabet they are inverse to each
other: what was encoded is decoded again, and a text of whole groups is the encoding
of what it decodes to.
-/

namespace Brynet

open MachineInt

/-- `base64_chars` -/
def base64Chars : List UInt8 :=
  "ABCDEFGHIJKLMNOPQRSTUVWXYZabcdefghijklmnopqrstuvwxyz0123456789+/".toList.map Char.toUInt8

/-- `isalnum`, in the locale a program starts in. -/
def isalnum (c : UInt8) : Bool :=
  ('0'.toUInt8 ≤ c && c ≤ '9'.toUInt8) || ('A'.toUInt8 ≤ c && c ≤ 'Z'.toUInt8) ||
    ('a'.toUInt8 ≤ c && c ≤ 'z'.toUInt8)

def isBase64 (c : UInt8) : Bool := isalnum c || c == '+'.toUInt8 || c == '/'.toUInt8

/-- `base64_chars[i]`; an index behind the end is never formed (`charArray4_lt`). -/
def base64Char (i : UInt8) : UInt8 := base64Chars.getD i.toNat 0

/-- `base64_chars.find(c)` as an `unsigned char`: `npos` is 255. -/
def base64Find (c : UInt8) : UInt8 :=
  match base64Chars.idxOf? c with
  | some i => UInt8.ofNat i
  | none => 255

/-- `char_array_4` from `char_array_3`.  Bytes that are missing at the end are the zeros
that `base64_encode` fills in. -/
def charArray4 (a : List UInt8) : List UInt8 :=
  [(a.getD 0 0 &&& 0xfc) >>> 2,
    ((a.getD 0 0 &&& 0x03) <<< 4) + ((a.getD 1 0 &&& 0xf0) >>> 4),
    ((a.getD 1 0 &&& 0x0f) <<< 2) + ((a.getD 2 0 &&& 0xc0) >>> 6),
    a.getD 2 0 &&& 0x3f]

/-- `char_array_3` from `char_array_4`. -/
def charArray3 (a : List UInt8) : List UInt8 :=
  [(a.getD 0 0 <<< 2) + ((a.getD 1 0 &&& 0x30) >>> 4),
    ((a.getD 1 0 &&& 0xf) <<< 4) + ((a.getD 2 0 &&& 0x3c) >>> 2),
    ((a.getD 2 0 &&& 0x3) <<< 6) + a.getD 3 0]

/-- The loop of `base64_encode`: what it returns so far, and the bytes in `char_array_3`. -/
def encodeLoop : List UInt8 → List UInt8 → List UInt8 → List UInt8 × List UInt8
  | [], ret, array3 => (ret, array3)
  | byte :: rest, ret, array3 =>
    let array3 := array3 ++ [byte]
    if array3.length = 3 then encodeLoop rest (ret ++ (charArray4 array3).map base64Char) []
    else encodeLoop rest ret array3

/-- The last group of `base64_encode`, if it is short. -/
def encodeLast (ret array3 : List UInt8) : List UInt8 :=
  let i := array3.length
  if i ≠ 0 then
    ret ++ ((charArray4 array3).take (i + 1)).map base64Char ++
      List.replicate (3 - i) '='.toUInt8
  else ret

/-- `base64_encode` of the `in_len` bytes that are given. -/
def base64Encode (bytes : List UInt8) : List UInt8 :=
  let (ret, array3) := encodeLoop bytes [] []
  encodeLast ret array3

/-- The loop of `base64_decode`: what it returns so far, and the characters in
`char_array_4`.  Behind the end it meets the null character, which stops it too. -/
def decodeLoop : ℤ → List UInt8 → List UInt8 → List UInt8 → List UInt8 × List UInt8
  | _, [], ret, array4 => (ret, array4)
  | inLen, c :: rest, ret, array4 =>
    if inLen ≠ 0 ∧ c ≠ '='.toUInt8 ∧ isBase64 c then
      let array4 := array4 ++ [c]
      if array4.length = 4 then
        decodeLoop (inLen - 1) rest (ret ++ charArray3 (array4.map base64Find)) []
      else decodeLoop (inLen - 1) rest ret array4
    else (ret, array4)

/-- The last group of `base64_decode`, if it is short. -/
def decodeLast (ret array4 : List UInt8) : List UInt8 :=
  let i := array4.length
  if i ≠ 0 then
    let array4 := (array4 ++ List.replicate (4 - i) 0).map base64Find
    ret ++ (charArray3 array4).take (i - 1)
  else ret

/-- `base64_decode`.  The length is an `int`. -/
def base64Decode (encodedString : List UInt8) : List UInt8 :=
  let (ret, array4) := decodeLoop (toInt32 encodedString.length) encodedString [] []
  decodeLast ret array4

/-! ### The alphabet -/

theorem forall_byte {P : UInt8 → Prop} (h : ∀ n < 256, P (UInt8.ofNat n)) (x : UInt8) : P x := by
  have hx := h x.toNat x.toNat_lt
  rwa [UInt8.ofNat_toNat] at hx

/-- The codes of the alphabet: capital and small letters, digits, `+` and `/`. -/
def base64Codes : List ℕ :=
  List.range' 65 26 ++ (List.range' 97 26 ++ (List.range' 48 10 ++ [43, 47]))

theorem nodup_base64Codes : base64Codes.Nodup := by
  refine List.nodup_append.mpr ⟨List.nodup_range', List.nodup_append.mpr ⟨List.nodup_range',
    List.nodup_append.mpr ⟨List.nodup_range', by decide, ?_⟩, ?_⟩, ?_⟩ <;>
  · intro code hcode other hother
    simp only [List.mem_append, List.mem_range'_1, List.mem_cons, List.not_mem_nil,
      or_false] at hcode hother
    omega

theorem toNat_base64Chars : base64Chars.map UInt8.toNat = base64Codes := by
  -- The literal is taken apart as a list of characters, not by decoding its bytes.
  have hliteral : "ABCDEFGHIJKLMNOPQRSTUVWXYZabcdefghijklmnopqrstuvwxyz0123456789+/" =
      String.ofList (base64Codes.map Char.ofNat) := by rfl
  have hchars : base64Chars = (base64Codes.map Char.ofNat).map Char.toUInt8 :=
    congrArg (List.map Char.toUInt8) ((congrArg String.toList hliteral).trans String.toList_ofList)
  have hcodes : ((base64Codes.map Char.ofNat).map Char.toUInt8).map UInt8.toNat = base64Codes :=
    rfl
  exact (congrArg (List.map UInt8.toNat) hchars).trans hcodes

theorem length_base64Chars : base64Chars.length = 64 := by
  have hlength := congrArg List.length toNat_base64Chars
  rw [List.length_map] at hlength
  exact hlength.trans (by decide)

theorem nodup_base64Chars : base64Chars.Nodup :=
  List.Nodup.of_map UInt8.toNat (toNat_base64Chars.symm ▸ nodup_base64Codes)

theorem mem_base64Codes (c : UInt8) : c.toNat ∈ base64Codes ↔ isBase64 c := by
  have hchars : '0'.toUInt8.toNat = 48 ∧ '9'.toUInt8.toNat = 57 ∧ 'A'.toUInt8.toNat = 65 ∧
      'Z'.toUInt8.toNat = 90 ∧ 'a'.toUInt8.toNat = 97 ∧ 'z'.toUInt8.toNat = 122 ∧
      '+'.toUInt8.toNat = 43 ∧ '/'.toUInt8.toNat = 47 := by decide
  simp only [base64Codes, isBase64, isalnum, List.mem_append, List.mem_range'_1, List.mem_cons,
    List.not_mem_nil, or_false, Bool.or_eq_true, Bool.and_eq_true, decide_eq_true_eq, beq_iff_eq,
    UInt8.le_iff_toNat_le, ← UInt8.toNat_inj]
  omega

theorem mem_base64Chars {c : UInt8} : c ∈ base64Chars ↔ isBase64 c := by
  refine Iff.trans ?_ (mem_base64Codes c)
  rw [← toNat_base64Chars]
  exact (List.mem_map_of_injective fun _ _ => UInt8.toNat_inj.mp).symm

theorem base64Find_getElem {i : ℕ} (h : i < base64Chars.length) :
    base64Find base64Chars[i] = UInt8.ofNat i := by
  have hfind : base64Chars.idxOf? base64Chars[i] = some i := by
    refine List.idxOf?_eq_some_iff.mpr ⟨h, rfl, fun j hj heq => ?_⟩
    exact hj.ne ((nodup_base64Chars.getElem_inj_iff).mp heq)
  rw [base64Find, hfind]

theorem base64Char_eq {v : UInt8} (hv : v < 64) :
    ∃ h : v.toNat < base64Chars.length, base64Char v = base64Chars[v.toNat] := by
  have hlt : v.toNat < base64Chars.length := length_base64Chars.symm ▸ UInt8.lt_iff_toNat_lt.mp hv
  refine ⟨hlt, ?_⟩
  rw [base64Char, List.getD_eq_getElem?_getD, List.getElem?_eq_getElem hlt, Option.getD_some]

theorem base64Find_base64Char {v : UInt8} (hv : v < 64) : base64Find (base64Char v) = v := by
  obtain ⟨hlt, heq⟩ := base64Char_eq hv
  rw [heq, base64Find_getElem, UInt8.ofNat_toNat]

/-- `=` is not in the alphabet. -/
theorem ne_of_isBase64 {c : UInt8} (hc : isBase64 c) : c ≠ '='.toUInt8 := by
  rintro rfl
  revert hc
  decide

theorem isBase64_base64Char {v : UInt8} (hv : v < 64) :
    base64Char v ≠ '='.toUInt8 ∧ isBase64 (base64Char v) := by
  obtain ⟨hlt, heq⟩ := base64Char_eq hv
  have hmem : isBase64 (base64Char v) := by
    rw [heq, ← mem_base64Chars]
    exact List.getElem_mem hlt
  exact ⟨ne_of_isBase64 hmem, hmem⟩

theorem base64Char_base64Find {c : UInt8} (hc : isBase64 c) :
    c ≠ '='.toUInt8 ∧ base64Find c < 64 ∧ base64Char (base64Find c) = c := by
  refine ⟨ne_of_isBase64 hc, ?_⟩
  obtain ⟨i, hi, rfl⟩ := List.mem_iff_getElem.mp (mem_base64Chars.mpr hc)
  rw [base64Find_getElem]
  have hlt : i < 64 := hi.trans_eq length_base64Chars
  have hsmall : (UInt8.ofNat i).toNat = i := by
    rw [UInt8.toNat_ofNat']
    exact Nat.mod_eq_of_lt (by omega)
  have hsixty : UInt8.ofNat i < 64 := by
    rw [UInt8.lt_iff_toNat_lt, hsmall]
    exact hlt
  refine ⟨hsixty, ?_⟩
  rw [base64Char, hsmall, List.getD_eq_getElem?_getD, List.getElem?_eq_getElem hi, Option.getD_some]

/-! ### One group -/

/-- The masks and shifts of the two functions, as divisions. -/
theorem toNat_pieces (x : UInt8) :
    ((x &&& 0xfc) >>> 2).toNat = x.toNat / 4 ∧ ((x &&& 0x03) <<< 4).toNat = x.toNat % 4 * 16 ∧
      ((x &&& 0xf0) >>> 4).toNat = x.toNat / 16 ∧ ((x &&& 0x0f) <<< 2).toNat = x.toNat % 16 * 4 ∧
      ((x &&& 0xc0) >>> 6).toNat = x.toNat / 64 ∧ (x &&& 0x3f).toNat = x.toNat % 64 := by
  revert x
  exact forall_byte (by decide +kernel)

theorem toNat_sextet (x : UInt8) :
    (x <<< 2).toNat = x.toNat * 4 % 256 ∧ ((x &&& 0x30) >>> 4).toNat = x.toNat / 16 % 4 ∧
      ((x &&& 0xf) <<< 4).toNat = x.toNat % 16 * 16 ∧
      ((x &&& 0x3c) >>> 2).toNat = x.toNat / 4 % 16 ∧
      ((x &&& 0x3) <<< 6).toNat = x.toNat % 4 * 64 := by
  revert x
  exact forall_byte (by decide +kernel)

/-- Four sextets, as numbers. -/
theorem charArray4_toNat (c0 c1 c2 : UInt8) :
    (charArray4 [c0, c1, c2]).map UInt8.toNat =
      [c0.toNat / 4, c0.toNat % 4 * 16 + c1.toNat / 16, c1.toNat % 16 * 4 + c2.toNat / 64,
        c2.toNat % 64] := by
  have h0 := c0.toNat_lt
  have h1 := c1.toNat_lt
  have h2 := c2.toNat_lt
  obtain ⟨a0, a1, -, -, -, -⟩ := toNat_pieces c0
  obtain ⟨-, -, b1, b2, -, -⟩ := toNat_pieces c1
  obtain ⟨-, -, -, -, d1, d2⟩ := toNat_pieces c2
  simp only [charArray4, List.getD_cons_zero, List.getD_cons_succ, List.map_cons, List.map_nil,
    UInt8.toNat_add, a0, a1, b1, b2, d1, d2, List.cons.injEq, and_true, true_and]
  omega

theorem charArray3_toNat (v0 v1 v2 v3 : UInt8) :
    (charArray3 [v0, v1, v2, v3]).map UInt8.toNat =
      [(v0.toNat * 4 + v1.toNat / 16 % 4) % 256, (v1.toNat % 16 * 16 + v2.toNat / 4 % 16) % 256,
        (v2.toNat % 4 * 64 + v3.toNat) % 256] := by
  obtain ⟨a0, -, -, -, -⟩ := toNat_sextet v0
  obtain ⟨-, b0, b1, -, -⟩ := toNat_sextet v1
  obtain ⟨-, -, -, d0, d1⟩ := toNat_sextet v2
  simp only [charArray3, List.getD_cons_zero, List.getD_cons_succ, List.map_cons, List.map_nil,
    UInt8.toNat_add, a0, b0, b1, d0, d1, List.cons.injEq, and_true]
  omega

theorem map_toNat_injective : Function.Injective (List.map UInt8.toNat) :=
  List.map_injective_iff.mpr fun _ _ => UInt8.toNat_inj.mp

theorem charArray3_charArray4 (c0 c1 c2 : UInt8) :
    charArray3 (charArray4 [c0, c1, c2]) = [c0, c1, c2] := by
  have hnat := charArray4_toNat c0 c1 c2
  have h0 := c0.toNat_lt
  have h1 := c1.toNat_lt
  have h2 := c2.toNat_lt
  obtain ⟨v0, v1, v2, v3, hv⟩ : ∃ v0 v1 v2 v3, charArray4 [c0, c1, c2] = [v0, v1, v2, v3] :=
    ⟨_, _, _, _, rfl⟩
  rw [hv] at hnat ⊢
  simp only [List.map_cons, List.map_nil, List.cons.injEq, and_true] at hnat
  obtain ⟨e0, e1, e2, e3⟩ := hnat
  apply map_toNat_injective
  rw [charArray3_toNat, e0, e1, e2, e3]
  simp only [List.map_cons, List.map_nil, List.cons.injEq, and_true]
  omega

theorem charArray4_charArray3 {v0 v1 v2 v3 : UInt8} (h0 : v0 < 64) (h1 : v1 < 64) (h2 : v2 < 64)
    (h3 : v3 < 64) : charArray4 (charArray3 [v0, v1, v2, v3]) = [v0, v1, v2, v3] := by
  have hnat := charArray3_toNat v0 v1 v2 v3
  simp only [UInt8.lt_iff_toNat_lt, UInt8.reduceToNat] at h0 h1 h2 h3
  obtain ⟨c0, c1, c2, hc⟩ : ∃ c0 c1 c2, charArray3 [v0, v1, v2, v3] = [c0, c1, c2] :=
    ⟨_, _, _, rfl⟩
  rw [hc] at hnat ⊢
  simp only [List.map_cons, List.map_nil, List.cons.injEq, and_true] at hnat
  obtain ⟨e0, e1, e2⟩ := hnat
  apply map_toNat_injective
  rw [charArray4_toNat, e0, e1, e2]
  simp only [List.map_cons, List.map_nil, List.cons.injEq, and_true]
  omega

theorem charArray4_lt (c0 c1 c2 : UInt8) : ∀ v ∈ charArray4 [c0, c1, c2], v < 64 := by
  have hnat := charArray4_toNat c0 c1 c2
  have h0 := c0.toNat_lt
  have h1 := c1.toNat_lt
  have h2 := c2.toNat_lt
  intro v hv
  have hmem := List.mem_map_of_mem (f := UInt8.toNat) hv
  rw [hnat] at hmem
  simp only [UInt8.lt_iff_toNat_lt, UInt8.reduceToNat]
  simp only [List.mem_cons, List.not_mem_nil, or_false] at hmem
  omega

/-! ### Whole texts -/

theorem encodeLoop_ret (bytes ret array3 : List UInt8) :
    encodeLoop bytes ret array3 =
      (ret ++ (encodeLoop bytes [] array3).1, (encodeLoop bytes [] array3).2) := by
  induction bytes generalizing ret array3 with
  | nil => simp [encodeLoop]
  | cons byte rest ih =>
      rw [encodeLoop, encodeLoop]
      split
      · rw [ih, ih ([] ++ _)]
        simp
      · exact ih ret _

theorem decodeLoop_ret (n : ℤ) (s ret array4 : List UInt8) :
    decodeLoop n s ret array4 =
      (ret ++ (decodeLoop n s [] array4).1, (decodeLoop n s [] array4).2) := by
  induction s generalizing n ret array4 with
  | nil => simp [decodeLoop]
  | cons c rest ih =>
      rw [decodeLoop, decodeLoop]
      split
      · dsimp only
        split
        · rw [ih, ih _ ([] ++ _)]
          simp
        · exact ih _ ret _
      · simp

/-- Three bytes are four characters. -/
theorem base64Encode_cons (c0 c1 c2 : UInt8) (rest : List UInt8) :
    base64Encode (c0 :: c1 :: c2 :: rest) =
      (charArray4 [c0, c1, c2]).map base64Char ++ base64Encode rest := by
  have hloop : encodeLoop (c0 :: c1 :: c2 :: rest) [] [] =
      encodeLoop rest ((charArray4 [c0, c1, c2]).map base64Char) [] := rfl
  rw [base64Encode, hloop, encodeLoop_ret, base64Encode]
  simp only [encodeLast]
  split <;> simp

theorem base64Encode_one (c0 : UInt8) :
    base64Encode [c0] =
      ((charArray4 [c0, 0, 0]).take 2).map base64Char ++ ['='.toUInt8, '='.toUInt8] := rfl

theorem base64Encode_two (c0 c1 : UInt8) :
    base64Encode [c0, c1] =
      ((charArray4 [c0, c1, 0]).take 3).map base64Char ++ ['='.toUInt8] := rfl

theorem isBase64_of_mem_map {vs : List UInt8} (h : ∀ v ∈ vs, v < 64) {c : UInt8}
    (hc : c ∈ vs.map base64Char) : isBase64 c := by
  obtain ⟨v, hv, rfl⟩ := List.mem_map.mp hc
  exact (isBase64_base64Char (h v hv)).2

/-- Nothing but the alphabet and `=` is written. -/
theorem isBase64_of_mem_base64Encode {c : UInt8} :
    ∀ {bytes : List UInt8}, c ∈ base64Encode bytes → isBase64 c ∨ c = '='.toUInt8
  | [], h => absurd h List.not_mem_nil
  | [c0], h => by
      rw [base64Encode_one, List.mem_append] at h
      rcases h with hgroup | hpad
      · exact .inl (isBase64_of_mem_map (fun v hv => charArray4_lt c0 0 0 v (List.mem_of_mem_take hv))
          hgroup)
      · exact .inr (by simpa using hpad)
  | [c0, c1], h => by
      rw [base64Encode_two, List.mem_append] at h
      rcases h with hgroup | hpad
      · exact .inl (isBase64_of_mem_map (fun v hv => charArray4_lt c0 c1 0 v (List.mem_of_mem_take hv))
          hgroup)
      · exact .inr (by simpa using hpad)
  | c0 :: c1 :: c2 :: rest, h => by
      rw [base64Encode_cons, List.mem_append] at h
      rcases h with hgroup | hrest
      · exact .inl (isBase64_of_mem_map (charArray4_lt c0 c1 c2) hgroup)
      · exact isBase64_of_mem_base64Encode hrest

/-- What `base64_decode` makes of a text, with its counter at `n`. -/
def decodeFrom (n : ℤ) (s : List UInt8) : List UInt8 :=
  decodeLast (decodeLoop n s [] []).1 (decodeLoop n s [] []).2

theorem decodeLoop_cons {n : ℤ} {c : UInt8} (hn : n ≠ 0) (hc : isBase64 c)
    (rest ret array4 : List UInt8) :
    decodeLoop n (c :: rest) ret array4 =
      if (array4 ++ [c]).length = 4 then
        decodeLoop (n - 1) rest (ret ++ charArray3 ((array4 ++ [c]).map base64Find)) []
      else decodeLoop (n - 1) rest ret (array4 ++ [c]) := by
  rw [decodeLoop, if_pos ⟨hn, (base64Char_base64Find hc).1, hc⟩]

/-- Four characters are three bytes. -/
theorem decodeFrom_cons {n : ℤ} (hn : 4 ≤ n) {s0 s1 s2 s3 : UInt8} (h0 : isBase64 s0)
    (h1 : isBase64 s1) (h2 : isBase64 s2) (h3 : isBase64 s3) (rest : List UInt8) :
    decodeFrom n (s0 :: s1 :: s2 :: s3 :: rest) =
      charArray3 ([s0, s1, s2, s3].map base64Find) ++ decodeFrom (n - 4) rest := by
  have hloop : decodeLoop n (s0 :: s1 :: s2 :: s3 :: rest) [] [] =
      decodeLoop (n - 4) rest (charArray3 ([s0, s1, s2, s3].map base64Find)) [] := by
    have hcount : n - 1 - 1 - 1 - 1 = n - 4 := by omega
    rw [decodeLoop_cons (by omega) h0, if_neg (by simp), decodeLoop_cons (by omega) h1,
      if_neg (by simp), decodeLoop_cons (by omega) h2, if_neg (by simp),
      decodeLoop_cons (by omega) h3, if_pos (by simp), hcount]
    rfl
  rw [decodeFrom, hloop, decodeLoop_ret, decodeFrom]
  simp only [decodeLast]
  split <;> simp

theorem exists_charArray4 (c0 c1 c2 : UInt8) :
    ∃ v0 v1 v2 v3, charArray4 [c0, c1, c2] = [v0, v1, v2, v3] ∧ v0 < 64 ∧ v1 < 64 ∧ v2 < 64 ∧
      v3 < 64 := by
  refine ⟨_, _, _, _, rfl, ?_, ?_, ?_, ?_⟩ <;> apply charArray4_lt c0 c1 c2 <;> simp [charArray4]

/-- The last group ends at the first character that is not of the alphabet. -/
theorem decodeLoop_stop {n : ℤ} {c : UInt8} (hc : ¬isBase64 c) (rest ret array4 : List UInt8) :
    decodeLoop n (c :: rest) ret array4 = (ret, array4) := by
  rw [decodeLoop, if_neg]
  rintro ⟨-, -, hbase⟩
  exact hc hbase

/-- Two characters are one byte. -/
theorem decodeFrom_two {n : ℤ} (hn : 2 ≤ n) {s0 s1 : UInt8} (h0 : isBase64 s0)
    (h1 : isBase64 s1) (rest : List UInt8) :
    decodeFrom n (s0 :: s1 :: '='.toUInt8 :: rest) =
      (charArray3 [base64Find s0, base64Find s1, 255, 255]).take 1 := by
  have hloop : decodeLoop n (s0 :: s1 :: '='.toUInt8 :: rest) [] [] = ([], [s0, s1]) := by
    rw [decodeLoop_cons (by omega) h0, if_neg (by simp), decodeLoop_cons (by omega) h1,
      if_neg (by simp), decodeLoop_stop (by decide)]
    rfl
  rw [decodeFrom, hloop]
  rfl

/-- Three characters are two bytes. -/
theorem decodeFrom_three {n : ℤ} (hn : 3 ≤ n) {s0 s1 s2 : UInt8} (h0 : isBase64 s0)
    (h1 : isBase64 s1) (h2 : isBase64 s2) (rest : List UInt8) :
    decodeFrom n (s0 :: s1 :: s2 :: '='.toUInt8 :: rest) =
      (charArray3 [base64Find s0, base64Find s1, base64Find s2, 255]).take 2 := by
  have hloop : decodeLoop n (s0 :: s1 :: s2 :: '='.toUInt8 :: rest) [] [] = ([], [s0, s1, s2]) := by
    rw [decodeLoop_cons (by omega) h0, if_neg (by simp), decodeLoop_cons (by omega) h1,
      if_neg (by simp), decodeLoop_cons (by omega) h2, if_neg (by simp), decodeLoop_stop (by decide)]
    rfl
  rw [decodeFrom, hloop]
  rfl

/-- Decoding what was encoded, group by group. -/
theorem decodeFrom_base64Encode :
    ∀ (bytes : List UInt8) {n : ℤ}, ((base64Encode bytes).length : ℤ) ≤ n →
      decodeFrom n (base64Encode bytes) = bytes
  | [], n, hn => by rfl
  | [c0], n, hn => by
      obtain ⟨v0, v1, v2, v3, hv, h0, h1, h2, h3⟩ := exists_charArray4 c0 0 0
      have hgroup := charArray3_charArray4 c0 0 0
      have hencode : base64Encode [c0] =
          [base64Char v0, base64Char v1, '='.toUInt8, '='.toUInt8] := by
        rw [base64Encode_one, hv]
        rfl
      rw [hencode] at hn ⊢
      simp only [List.length_cons, List.length_nil] at hn
      rw [decodeFrom_two (by omega) (isBase64_base64Char h0).2 (isBase64_base64Char h1).2,
        base64Find_base64Char h0, base64Find_base64Char h1]
      calc (charArray3 [v0, v1, 255, 255]).take 1 = (charArray3 [v0, v1, v2, v3]).take 1 := rfl
        _ = [c0] := by rw [← hv, hgroup]; rfl
  | [c0, c1], n, hn => by
      obtain ⟨v0, v1, v2, v3, hv, h0, h1, h2, h3⟩ := exists_charArray4 c0 c1 0
      have hgroup := charArray3_charArray4 c0 c1 0
      have hencode : base64Encode [c0, c1] =
          [base64Char v0, base64Char v1, base64Char v2, '='.toUInt8] := by
        rw [base64Encode_two, hv]
        rfl
      rw [hencode] at hn ⊢
      simp only [List.length_cons, List.length_nil] at hn
      rw [decodeFrom_three (by omega) (isBase64_base64Char h0).2 (isBase64_base64Char h1).2
        (isBase64_base64Char h2).2, base64Find_base64Char h0, base64Find_base64Char h1,
        base64Find_base64Char h2]
      calc (charArray3 [v0, v1, v2, 255]).take 2 = (charArray3 [v0, v1, v2, v3]).take 2 := rfl
        _ = [c0, c1] := by rw [← hv, hgroup]; rfl
  | c0 :: c1 :: c2 :: rest, n, hn => by
      obtain ⟨v0, v1, v2, v3, hv, h0, h1, h2, h3⟩ := exists_charArray4 c0 c1 c2
      have hgroup := charArray3_charArray4 c0 c1 c2
      rw [base64Encode_cons, hv] at hn ⊢
      rw [hv] at hgroup
      simp only [List.map_cons, List.map_nil, List.cons_append, List.nil_append,
        List.length_cons] at hn ⊢
      push_cast at hn
      rw [decodeFrom_cons (by omega) (isBase64_base64Char h0).2 (isBase64_base64Char h1).2
        (isBase64_base64Char h2).2 (isBase64_base64Char h3).2,
        decodeFrom_base64Encode rest (by omega)]
      simp only [List.map_cons, List.map_nil, base64Find_base64Char h0, base64Find_base64Char h1,
        base64Find_base64Char h2, base64Find_base64Char h3, hgroup, List.cons_append,
        List.nil_append]

theorem length_base64Encode :
    ∀ bytes : List UInt8, (base64Encode bytes).length = 4 * ((bytes.length + 2) / 3)
  | [] => rfl
  | [_] => by simp [base64Encode, encodeLoop, encodeLast, charArray4]
  | [_, _] => by simp [base64Encode, encodeLoop, encodeLast, charArray4]
  | c0 :: c1 :: c2 :: rest => by
      have hgroup : ((charArray4 [c0, c1, c2]).map base64Char).length = 4 := rfl
      rw [base64Encode_cons, List.length_append, hgroup, length_base64Encode rest]
      simp only [List.length_cons]
      omega

-- two bytes make one group, with one character of padding
example : base64Encode [77, 97] = [84, 87, 69, 61] := by decide

theorem decode_encode {bytes : List UInt8} (h : 4 * ((bytes.length + 2) / 3) < 2 ^ 31) :
    base64Decode (base64Encode bytes) = bytes := by
  have hlen : toInt32 (base64Encode bytes).length = (base64Encode bytes).length :=
    toInt32_eq (by rw [length_base64Encode]; exact h)
  exact decodeFrom_base64Encode bytes hlen.ge

/-- **Round trip.**  Every byte string is decoded again, as long as the length of the
text is an `int`; the text has four characters for every three bytes begun. -/
theorem base64Decode_base64Encode {bytes : List UInt8}
    (h : 4 * ((bytes.length + 2) / 3) < 2 ^ 31) :
    base64Decode (base64Encode bytes) = bytes ∧
      (base64Encode bytes).length = 4 * ((bytes.length + 2) / 3) :=
  ⟨decode_encode h, length_base64Encode bytes⟩

theorem base64Decode_base64Encode_two :
    base64Decode (base64Encode [77, 97]) = [77, 97] :=
  (base64Decode_base64Encode (by decide)).1

/-! ### Texts from elsewhere -/

/-- Where the loop of `base64_decode` stops does not depend on what follows. -/
theorem decodeLoop_takeWhile {n : ℤ} {s : List UInt8} (hn : (s.length : ℤ) ≤ n)
    (ret array4 : List UInt8) :
    decodeLoop n s ret array4 =
      decodeLoop (s.takeWhile isBase64).length (s.takeWhile isBase64) ret array4 := by
  induction s generalizing n ret array4 with
  | nil => rfl
  | cons c rest ih =>
      rw [List.length_cons] at hn
      push_cast at hn
      by_cases hc : isBase64 c
      · have hnext : ((c :: rest.takeWhile isBase64).length : ℤ) - 1 =
            (rest.takeWhile isBase64).length := by
          rw [List.length_cons]
          push_cast
          omega
        have hpos : ((c :: rest.takeWhile isBase64).length : ℤ) ≠ 0 := by
          rw [List.length_cons]
          omega
        rw [List.takeWhile_cons_of_pos hc, decodeLoop_cons (by omega) hc,
          decodeLoop_cons hpos hc, hnext, ih (by omega), ih (by omega)]
      · rw [List.takeWhile_cons_of_neg hc, decodeLoop_stop hc]
        rfl

/-- A text of whole groups is the encoding of what it decodes to. -/
theorem base64Encode_decodeFrom :
    ∀ (s : List UInt8), (∀ c ∈ s, isBase64 c) → 4 ∣ s.length →
      base64Encode (decodeFrom s.length s) = s
  | [], _, _ => rfl
  | [_], _, h => by simp at h
  | [_, _], _, h => by
      simp only [List.length_cons, List.length_nil] at h
      omega
  | [_, _, _], _, h => by
      simp only [List.length_cons, List.length_nil] at h
      omega
  | s0 :: s1 :: s2 :: s3 :: rest, hs, h => by
      simp only [List.forall_mem_cons] at hs
      obtain ⟨h0, h1, h2, h3, hrest⟩ := hs
      obtain ⟨-, l0, e0⟩ := base64Char_base64Find h0
      obtain ⟨-, l1, e1⟩ := base64Char_base64Find h1
      obtain ⟨-, l2, e2⟩ := base64Char_base64Find h2
      obtain ⟨-, l3, e3⟩ := base64Char_base64Find h3
      obtain ⟨c0, c1, c2, hc⟩ : ∃ c0 c1 c2,
          charArray3 ([s0, s1, s2, s3].map base64Find) = [c0, c1, c2] := ⟨_, _, _, rfl⟩
      have hback : charArray4 [c0, c1, c2] = [s0, s1, s2, s3].map base64Find := by
        rw [← hc]
        exact charArray4_charArray3 l0 l1 l2 l3
      have hlen : ((s0 :: s1 :: s2 :: s3 :: rest).length : ℤ) - 4 = rest.length := by
        simp only [List.length_cons]
        push_cast
        omega
      have hdvd : 4 ∣ rest.length := by
        simp only [List.length_cons] at h
        omega
      rw [decodeFrom_cons (by simp only [List.length_cons]; omega) h0 h1 h2 h3, hlen, hc,
        List.cons_append, List.cons_append, List.cons_append, List.nil_append, base64Encode_cons,
        hback, base64Encode_decodeFrom rest hrest hdvd]
      simp only [List.map_cons, List.map_nil, e0, e1, e2, e3, List.cons_append, List.nil_append]

/-- **Any text.**  `base64_decode` reads a text up to its first character that is not of
the alphabet; where these are whole groups, they are the encoding of the result. -/
theorem base64Decode_takeWhile {s : List UInt8} (h : s.length < 2 ^ 31) :
    base64Decode s = base64Decode (s.takeWhile isBase64) ∧
      (4 ∣ (s.takeWhile isBase64).length →
        base64Encode (base64Decode s) = s.takeWhile isBase64) := by
  have hle : (s.takeWhile isBase64).length ≤ s.length :=
    (List.takeWhile_prefix isBase64).length_le
  have hfrom : base64Decode s =
      decodeFrom (s.takeWhile isBase64).length (s.takeWhile isBase64) := by
    rw [base64Decode, toInt32_eq h, decodeLoop_takeWhile le_rfl, decodeFrom]
  have hread : base64Decode (s.takeWhile isBase64) =
      decodeFrom (s.takeWhile isBase64).length (s.takeWhile isBase64) := by
    rw [base64Decode, toInt32_eq (hle.trans_lt h), decodeFrom]
  refine ⟨hfrom.trans hread.symm, fun hdvd => ?_⟩
  rw [hfrom]
  exact base64Encode_decodeFrom _ (fun c hc => List.all_eq_true.mp List.all_takeWhile c hc) hdvd

/-- A text with an end of line in it. -/
theorem base64Decode_takeWhile_line :
    base64Encode (base64Decode ("TWFu\n".toList.map Char.toUInt8)) =
      "TWFu".toList.map Char.toUInt8 :=
  (base64Decode_takeWhile (s := "TWFu\n".toList.map Char.toUInt8) (by decide)).2 (by decide)

end Brynet
