import Brynet.Http.WebSocketFormat

/-!
# Building a WebSocket frame

`WebSocketFormat::wsFrameBuild`, the counterpart of `wsFrameExtractBuffer`.  The
four mask bytes, which the source takes from `rand`, are an argument.

A built frame is extracted again whatever follows it, as long as its payload has
less than `2 ^ 31` bytes (`wsFrameExtractBuffer_wsFrameBuild`).  From `2 ^ 31` on
the first of the four low length bytes has its high bit set, and extraction
refuses the frame for ever (`wsFrameExtractBuffer_of_high`).
-/

namespace Brynet.Http

open Memory

/-- The length byte, without the masking bit, and the extended length.  The
source assumes that the length fits into 32 bits. -/
def wsLengthBytes (payloadLen : ℕ) : UInt8 × Bytes :=
  if payloadLen ≤ 125 then (UInt8.ofNat payloadLen, [])
  else if payloadLen ≤ 0xFFFF then
    (126, [UInt8.ofNat ((payloadLen &&& 0xFF00) >>> 8), UInt8.ofNat (payloadLen &&& 0x00FF)])
  else
    (127, [0x00, 0x00, 0x00, 0x00,
      UInt8.ofNat ((payloadLen &&& 0xFF000000) >>> 24),
      UInt8.ofNat ((payloadLen &&& 0x00FF0000) >>> 16),
      UInt8.ofNat ((payloadLen &&& 0x0000FF00) >>> 8),
      UInt8.ofNat (payloadLen &&& 0x000000FF)])

/-- `wsFrameBuild`; `mask` are the mask bytes if `masking` is set. -/
def wsFrameBuild (payload : Bytes) (frameType : WebSocketFrameType) (isFin : Bool)
    (mask : Option (Fin 4 → UInt8)) : Bytes :=
  let head := frameType.code ||| (if isFin then 0x80 else 0x00)
  let length := wsLengthBytes payload.length
  match mask with
  | some mask =>
      head :: (length.1 ||| 0x80) :: (length.2 ++ (List.ofFn mask ++
        payload.mapIdx fun i b => b ^^^ mask ⟨i % 4, Nat.mod_lt _ (by decide)⟩))
  | none => head :: length.1 :: (length.2 ++ payload)

/-! ## The header bytes -/

theorem length_wsLengthBytes (n : ℕ) :
    (wsLengthBytes n).2.length = if n ≤ 125 then 0 else if n ≤ 0xFFFF then 2 else 8 := by
  unfold wsLengthBytes
  split
  · rfl
  · split <;> rfl

/-- A byte of a number, as the source takes it out. -/
theorem and_shiftRight (n k : ℕ) : (n &&& (0xFF <<< k)) >>> k = n / 2 ^ k % 256 := by
  rw [Nat.shiftRight_and_distrib, Nat.shiftLeft_shiftRight, Nat.shiftRight_eq_div_pow]
  exact Nat.and_two_pow_sub_one_eq_mod _ 8

theorem toNat_lengthByte (n k : ℕ) :
    (UInt8.ofNat ((n &&& (0xFF <<< k)) >>> k)).toNat = n / 2 ^ k % 256 := by
  rw [and_shiftRight, UInt8.toNat_ofNat']
  omega

theorem head_bits : ∀ c < 16, ∀ fin : Bool,
    ((UInt8.ofNat c ||| (if fin then 0x80 else 0x00)).toNat &&& 0x0f = c) ∧
    (((UInt8.ofNat c ||| (if fin then 0x80 else 0x00)).toNat &&& 0x80 != 0) = fin) := by
  decide

theorem length_bits : ∀ n < 128,
    ((UInt8.ofNat n).toNat &&& 0x7f = n) ∧ (((UInt8.ofNat n).toNat &&& 0x80 != 0) = false) ∧
    ((UInt8.ofNat n ||| 0x80).toNat &&& 0x7f = n) ∧
    (((UInt8.ofNat n ||| 0x80).toNat &&& 0x80 != 0) = true) := by
  decide

/-- The seven bits of the length byte. -/
def shortLength (n : ℕ) : ℕ := if n ≤ 125 then n else if n ≤ 0xFFFF then 126 else 127

theorem wsLengthBytes_fst (n : ℕ) : (wsLengthBytes n).1 = UInt8.ofNat (shortLength n) := by
  unfold wsLengthBytes shortLength
  split
  · rfl
  · split <;> rfl

theorem shortLength_lt (n : ℕ) : shortLength n < 128 := by
  unfold shortLength
  split
  · omega
  · split <;> omega

theorem ok_bind {α β : Type} (a : α) (f : α → Extract β) : ((.ok a : Extract α) >>= f) = f a := rfl

theorem require_of_le {size : ℕ} {buffer : Bytes} (h : size ≤ buffer.length) :
    require size buffer = .ok () := if_neg (Nat.not_lt.mpr h)

/-- The two-byte length. -/
theorem wsPayloadLen_two {b2 b3 : UInt8} (b0 b1 : UInt8) (rest : Bytes) :
    wsPayloadLen 126 (b0 :: b1 :: b2 :: b3 :: rest) =
      .ok (toUInt32 (b2.toNat * 2 ^ 8 + b3.toNat), 4) := by
  unfold wsPayloadLen
  rw [if_pos rfl, require_of_le (by simp)]
  rfl

/-- The eight-byte length, of which four bytes are used. -/
theorem wsPayloadLen_eight {b6 b7 b8 b9 : UInt8} (b0 b1 : UInt8) (rest : Bytes) :
    wsPayloadLen 127 (b0 :: b1 :: 0 :: 0 :: 0 :: 0 :: b6 :: b7 :: b8 :: b9 :: rest) =
      if b6.toNat &&& 0x80 ≠ 0 then .error .incomplete
      else .ok (toUInt32 (b6.toNat * 2 ^ 24 + b7.toNat * 2 ^ 16 + b8.toNat * 2 ^ 8 + b9.toNat),
        10) := by
  unfold wsPayloadLen
  rw [if_neg (by decide), if_pos rfl, require_of_le (by simp)]
  rfl

/-- The length is read back. -/
theorem wsPayloadLen_wsLengthBytes {n : ℕ} (hn : n < 2 ^ 31) (b0 b1 : UInt8) (rest : Bytes) :
    wsPayloadLen (shortLength n) (b0 :: b1 :: ((wsLengthBytes n).2 ++ rest)) =
      .ok (n, 2 + (wsLengthBytes n).2.length) := by
  unfold shortLength wsLengthBytes
  have hbyte0 : (UInt8.ofNat (n &&& 0xFF)).toNat = n / 2 ^ 0 % 256 := toNat_lengthByte n 0
  have hbyte1 : (UInt8.ofNat ((n &&& 0xFF00) >>> 8)).toNat = n / 2 ^ 8 % 256 :=
    toNat_lengthByte n 8
  have hbyte2 : (UInt8.ofNat ((n &&& 0xFF0000) >>> 16)).toNat = n / 2 ^ 16 % 256 :=
    toNat_lengthByte n 16
  have hbyte3 : (UInt8.ofNat ((n &&& 0xFF000000) >>> 24)).toNat = n / 2 ^ 24 % 256 :=
    toNat_lengthByte n 24
  by_cases hshort : n ≤ 125
  · simp only [if_pos hshort]
    unfold wsPayloadLen
    rw [if_neg (by omega), if_neg (by omega)]
    rfl
  · simp only [if_neg hshort]
    by_cases hmiddle : n ≤ 0xFFFF
    · simp only [if_pos hmiddle, List.cons_append]
      rw [wsPayloadLen_two, hbyte0, hbyte1]
      have hvalue : toUInt32 (n / 2 ^ 8 % 256 * 2 ^ 8 + n / 2 ^ 0 % 256) = n := by
        unfold toUInt32
        omega
      rw [hvalue]
      rfl
    · simp only [if_neg hmiddle, List.cons_append]
      rw [wsPayloadLen_eight, hbyte0, hbyte1, hbyte2, hbyte3]
      have hhigh : n / 2 ^ 24 % 256 &&& 0x80 = 0 := (and_eq_zero_iff _ (by omega)).mpr (by omega)
      have hvalue : toUInt32 (n / 2 ^ 24 % 256 * 2 ^ 24 + n / 2 ^ 16 % 256 * 2 ^ 16 +
          n / 2 ^ 8 % 256 * 2 ^ 8 + n / 2 ^ 0 % 256) = n := by
        unfold toUInt32
        omega
      rw [if_neg (not_not.mpr hhigh), hvalue]
      rfl

/-! ## The mask and the payload -/

theorem bytesAt_append (first data rest : Bytes) :
    bytesAt first.length data.length (first ++ (data ++ rest)) = .ok data := by
  unfold bytesAt
  rw [if_pos (by simp)]
  simp [slice]

theorem wsMask_true (first rest : Bytes) (mask : Fin 4 → UInt8) :
    wsMask true first.length (first ++ (List.ofFn mask ++ rest)) =
      .ok (some (List.ofFn mask), first.length + 4) := by
  have hbytes := bytesAt_append first (List.ofFn mask) rest
  rw [List.length_ofFn] at hbytes
  unfold wsMask
  rw [if_pos rfl, require_of_le (by simp), ok_bind, hbytes]
  rfl

/-- Masking twice gives the payload back. -/
theorem unmask_mask (mask : Fin 4 → UInt8) (payload : Bytes) :
    unmask (some (List.ofFn mask))
      (payload.mapIdx fun i b => b ^^^ mask ⟨i % 4, Nat.mod_lt _ (by decide)⟩) = payload := by
  show List.mapIdx _ (List.mapIdx _ payload) = payload
  rw [List.mapIdx_mapIdx, List.mapIdx_eq_iff]
  intro i
  have hlt : i % 4 < 4 := Nat.mod_lt _ (by decide)
  have hmask : (List.ofFn mask).getD (i % 4) 0 = mask ⟨i % 4, hlt⟩ := by
    rw [List.getD_eq_getElem?_getD, List.getElem?_ofFn, dif_pos hlt]
    rfl
  cases payload[i]? with
  | none => rfl
  | some b =>
      simp only [Option.map_some, Function.comp_apply, hmask]
      rw [UInt8.xor_assoc, UInt8.xor_self, UInt8.xor_zero]

/-- Extraction fails with its first stage. -/
theorem wsFrameExtractBuffer_of_error {b0 b1 : UInt8} {rest p0 : Bytes} {e : Unextracted}
    (h : wsPayloadLen (b1.toNat &&& 0x7f) (b0 :: b1 :: rest) = .error e) :
    wsFrameExtractBuffer p0 (b0 :: b1 :: rest) = .error e := by
  unfold wsFrameExtractBuffer
  rw [require_of_le (by simp), ok_bind]
  show (wsPayloadLen (b1.toNat &&& 0x7f) _ >>= _) = _
  rw [h]
  rfl

/-- Extraction, once the stages are known: `first` is the frame up to its payload. -/
theorem wsFrameExtractBuffer_of_stages {b0 b1 : UInt8} {header data rest p0 : Bytes} {n pos : ℕ}
    {mask : Option Bytes} (hn : n < 2 ^ 31) (hdata : data.length = n)
    (hlength : wsPayloadLen (b1.toNat &&& 0x7f) (b0 :: b1 :: header ++ (data ++ rest)) =
      .ok (n, pos))
    (hmask : wsMask (b1.toNat &&& 0x80 != 0) pos (b0 :: b1 :: header ++ (data ++ rest)) =
      .ok (mask, 2 + header.length))
    (hheader : header.length ≤ 12) :
    wsFrameExtractBuffer p0 (b0 :: b1 :: header ++ (data ++ rest)) =
      .ok ⟨p0 ++ unmask mask data, ⟨UInt8.ofNat (b0.toNat &&& 0x0f)⟩, 2 + header.length + n,
        b0.toNat &&& 0x80 != 0⟩ := by
  have hsize : toUInt32 (2 + header.length + n) = 2 + header.length + n := by
    unfold toUInt32
    omega
  have hbytes : bytesAt (2 + header.length) n (b0 :: b1 :: header ++ (data ++ rest)) = .ok data := by
    have hlen : (b0 :: b1 :: header).length = 2 + header.length := by
      rw [List.length_cons, List.length_cons]
      omega
    rw [← hlen, ← hdata]
    exact bytesAt_append _ data rest
  unfold wsFrameExtractBuffer
  rw [require_of_le (by simp), ok_bind]
  show (wsPayloadLen (b1.toNat &&& 0x7f) _ >>= _) = _
  rw [hlength, ok_bind, hmask, ok_bind]
  dsimp only
  rw [hsize, require_of_le (by simp [hdata]; omega), ok_bind, hbytes, ok_bind,
    Nat.add_comm n, hsize]
  rfl

/-- **A built frame is extracted**, whatever follows it. -/
theorem wsFrameExtractBuffer_wsFrameBuild {payload : Bytes} {opcode : WebSocketFrameType}
    (hpayload : payload.length < 2 ^ 31) (hopcode : opcode.code.toNat < 16) (fin : Bool)
    (mask : Option (Fin 4 → UInt8)) (p0 rest : Bytes) :
    wsFrameExtractBuffer p0 (wsFrameBuild payload opcode fin mask ++ rest) =
      .ok ⟨p0 ++ payload, opcode, (wsFrameBuild payload opcode fin mask).length, fin⟩ := by
  obtain ⟨hcode, hfin⟩ := head_bits _ hopcode fin
  rw [UInt8.ofNat_toNat] at hcode hfin
  have hopcode' : (⟨UInt8.ofNat opcode.code.toNat⟩ : WebSocketFrameType) = opcode := by
    rw [UInt8.ofNat_toNat]
  obtain ⟨hshort, hplain, hshort', hmasked⟩ := length_bits _ (shortLength_lt payload.length)
  have hlengthBytes : (wsLengthBytes payload.length).2.length ≤ 8 := by
    rw [length_wsLengthBytes]
    split <;> [omega; split <;> omega]
  -- With a mask there are four more bytes, and the payload goes through it twice.
  cases mask with
  | none =>
      have hextract := @wsFrameExtractBuffer_of_stages
        (opcode.code ||| (if fin then 0x80 else 0x00)) (wsLengthBytes payload.length).1
        (wsLengthBytes payload.length).2 payload rest p0 payload.length
        (2 + (wsLengthBytes payload.length).2.length) none hpayload rfl
      rw [hcode, hfin, hopcode', wsLengthBytes_fst, hshort, hplain] at hextract
      have hframe := hextract (wsPayloadLen_wsLengthBytes hpayload _ _ _) rfl (by omega)
      simp only [wsFrameBuild, List.cons_append, List.append_assoc, List.length_cons,
        List.length_append]
      rw [wsLengthBytes_fst]
      refine hframe.trans ?_
      simp only [unmask]
      congr 2
      omega
  | some mask =>
      have hextract := @wsFrameExtractBuffer_of_stages
        (opcode.code ||| (if fin then 0x80 else 0x00)) ((wsLengthBytes payload.length).1 ||| 0x80)
        ((wsLengthBytes payload.length).2 ++ List.ofFn mask)
        (payload.mapIdx fun i b => b ^^^ mask ⟨i % 4, Nat.mod_lt _ (by decide)⟩) rest p0
        payload.length (2 + (wsLengthBytes payload.length).2.length) (some (List.ofFn mask))
        hpayload List.length_mapIdx
      rw [hcode, hfin, hopcode', wsLengthBytes_fst, hshort', hmasked] at hextract
      simp only [List.cons_append, List.append_assoc, List.length_append, List.length_ofFn]
        at hextract
      have hmask := wsMask_true
        ((opcode.code ||| (if fin then 0x80 else 0x00)) ::
          (UInt8.ofNat (shortLength payload.length) ||| 0x80) :: (wsLengthBytes payload.length).2)
        ((payload.mapIdx fun i b => b ^^^ mask ⟨i % 4, Nat.mod_lt _ (by decide)⟩) ++ rest) mask
      rw [List.length_cons, List.length_cons,
        show (wsLengthBytes payload.length).2.length + 1 + 1 =
          2 + (wsLengthBytes payload.length).2.length by omega] at hmask
      have hframe := hextract (wsPayloadLen_wsLengthBytes hpayload _ _ _)
        (by rw [← Nat.add_assoc]; exact hmask) (by omega)
      simp only [wsFrameBuild, List.cons_append, List.append_assoc, List.length_cons,
        List.length_append, List.length_ofFn, List.length_mapIdx]
      rw [wsLengthBytes_fst]
      refine hframe.trans ?_
      rw [unmask_mask]
      congr 2
      omega

/-- **Round trip.**  Extraction takes a built frame off the front of whatever it is given:
it finds the opcode, the flag and the payload that the frame was built from, and says
where the frame ends. -/
theorem wsFrame_round_trip (payload p0 rest : Bytes) (opcode : WebSocketFrameType) (fin : Bool)
    (mask : Option (Fin 4 → UInt8)) (hpayload : payload.length < 2 ^ 31)
    (hopcode : opcode.code.toNat < 16) :
    ∃ frame, wsFrameExtractBuffer p0 (wsFrameBuild payload opcode fin mask ++ rest) = .ok frame ∧
      frame.opcode = opcode ∧ frame.fin = fin ∧ frame.payload = p0 ++ payload ∧
      frame.frameSize = (wsFrameBuild payload opcode fin mask).length :=
  ⟨_, wsFrameExtractBuffer_wsFrameBuild hpayload hopcode fin mask p0 rest, rfl, rfl, rfl, rfl⟩

/-- A masked text frame, with two bytes behind it. -/
theorem wsFrame_round_trip_masked :
    ∃ frame, wsFrameExtractBuffer [7] (wsFrameBuild [1, 2, 3, 4, 5] .textFrame true
        (some fun i => UInt8.ofNat (17 * i)) ++ [8, 9]) = .ok frame ∧
      frame.opcode = .textFrame ∧ frame.fin = true ∧ frame.payload = [7] ++ [1, 2, 3, 4, 5] ∧
      frame.frameSize = (wsFrameBuild [1, 2, 3, 4, 5] .textFrame true
        (some fun i => UInt8.ofNat (17 * i))).length :=
  wsFrame_round_trip [1, 2, 3, 4, 5] [7] [8, 9] .textFrame true (some fun i => UInt8.ofNat (17 * i))
    (by decide) (by decide)

/-- A payload of `2 ^ 31` bytes or more, of a length that the header can say, is never
extracted. -/
theorem wsFrameExtractBuffer_of_high {payload : Bytes} {opcode : WebSocketFrameType}
    (hlow : 2 ^ 31 ≤ payload.length) (hhigh : payload.length < 2 ^ 32) (fin : Bool) (p0 rest : Bytes) :
    wsFrameExtractBuffer p0 (wsFrameBuild payload opcode fin none ++ rest) =
      .error .incomplete := by
  have hbyte3 : (UInt8.ofNat ((payload.length &&& 0xFF000000) >>> 24)).toNat =
      payload.length / 2 ^ 24 % 256 := toNat_lengthByte payload.length 24
  have hbit : payload.length / 2 ^ 24 % 256 &&& 0x80 ≠ 0 := by
    rw [ne_eq, and_eq_zero_iff _ (by omega)]
    omega
  have hlength : wsLengthBytes payload.length = ((127 : UInt8), [0x00, 0x00, 0x00, 0x00,
      UInt8.ofNat ((payload.length &&& 0xFF000000) >>> 24),
      UInt8.ofNat ((payload.length &&& 0x00FF0000) >>> 16),
      UInt8.ofNat ((payload.length &&& 0x0000FF00) >>> 8),
      UInt8.ofNat (payload.length &&& 0x000000FF)]) := by
    unfold wsLengthBytes
    rw [if_neg (by omega), if_neg (by omega)]
  have hshort : (127 : UInt8).toNat &&& 0x7f = 127 := by decide
  simp only [wsFrameBuild, hlength, List.cons_append]
  apply wsFrameExtractBuffer_of_error
  rw [hshort, wsPayloadLen_eight, hbyte3, if_pos hbit]

end Brynet.Http
