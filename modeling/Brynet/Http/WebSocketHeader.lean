import Brynet.Http.WebSocket

/-!
# The header decides

Extraction is a matter of the header alone: it says how long the frame is, and it may
say something that the source refuses.  With bytes behind the end of the buffer taken as
zero this is a single equation (`wsFrameExtractBuffer_eq`): the frame is extracted when
the header is not refused and the buffer has as many bytes as the header announces.

Two results rest on it.  Extraction never reads or computes out of range, and depends
on nothing behind the frame.  And a false result means "incomplete" exactly when the
header is not refused; `ProcessWebSocket`, which does not know the difference, waits for
ever behind one that is.
-/

namespace Brynet.Http

open Memory

variable {buffer rest : Bytes} {i : ℕ}

/-! ## What a header announces -/

/-- The byte at a position, zero behind the end. -/
def byte (buffer : Bytes) (i : ℕ) : ℕ := (buffer.getD i 0).toNat

/-- The number that `len` bytes stand for, most significant byte first. -/
def bigEndian (buffer : Bytes) (pos len : ℕ) : ℕ :=
  (List.range len).foldl (fun n i => n * 256 + byte buffer (pos + i)) 0

/-- The position behind the length. -/
def lengthEnd (buffer : Bytes) : ℕ :=
  if byte buffer 1 &&& 0x7f = 126 then 4 else if byte buffer 1 &&& 0x7f = 127 then 10 else 2

/-- The length of the payload: seven bits, sixteen or sixty-four. -/
def announcedLength (buffer : Bytes) : ℕ :=
  if byte buffer 1 &&& 0x7f = 126 then bigEndian buffer 2 2
  else if byte buffer 1 &&& 0x7f = 127 then bigEndian buffer 2 8
  else byte buffer 1 &&& 0x7f

/-- The position behind the mask. -/
def maskEnd (buffer : Bytes) : ℕ :=
  lengthEnd buffer + if byte buffer 1 &&& 0x80 != 0 then 4 else 0

/-- A length of sixty-four bits that does not fit into thirty-one. -/
def Refused (buffer : Bytes) : Prop :=
  byte buffer 1 &&& 0x7f = 127 ∧
    (byte buffer 2 ≠ 0 ∨ byte buffer 3 ≠ 0 ∨ byte buffer 4 ≠ 0 ∨ byte buffer 5 ≠ 0 ∨
      byte buffer 6 &&& 0x80 ≠ 0)

instance (buffer : Bytes) : Decidable (Refused buffer) := inferInstanceAs (Decidable (_ ∧ _))

theorem byte_lt (buffer : Bytes) (i : ℕ) : byte buffer i < 256 := UInt8.toNat_lt _

theorem byteAt_of_lt (h : i < buffer.length) : byteAt i buffer = .ok (byte buffer i) := by
  simp [byteAt, byte, List.getElem?_eq_getElem h]

theorem byte_eq_zero (h : buffer.length ≤ i) : byte buffer i = 0 := by
  simp [byte, List.getElem?_eq_none h]

theorem byte_append (h : i < buffer.length) : byte (buffer ++ rest) i = byte buffer i := by
  simp [byte, List.getElem?_append_left h]

theorem lengthEnd_bounds (buffer : Bytes) : 2 ≤ lengthEnd buffer ∧ lengthEnd buffer ≤ 10 := by
  unfold lengthEnd
  split
  · omega
  · split <;> omega

theorem maskEnd_bounds (buffer : Bytes) :
    lengthEnd buffer ≤ maskEnd buffer ∧ maskEnd buffer ≤ lengthEnd buffer + 4 := by
  unfold maskEnd
  split <;> omega

/-- What is not refused fits into thirty-one bits, and the upper half of its sixty-four
is zero. -/
theorem announcedLength_eq (h : ¬Refused buffer) :
    announcedLength buffer =
        (if byte buffer 1 &&& 0x7f = 126 then byte buffer 2 * 2 ^ 8 + byte buffer 3
        else if byte buffer 1 &&& 0x7f = 127 then
          byte buffer 6 * 2 ^ 24 + byte buffer 7 * 2 ^ 16 + byte buffer 8 * 2 ^ 8 + byte buffer 9
        else byte buffer 1 &&& 0x7f) ∧
      announcedLength buffer < 2 ^ 31 := by
  have hbyte := byte_lt buffer
  unfold announcedLength
  split
  · have hvalue : bigEndian buffer 2 2 = byte buffer 2 * 2 ^ 8 + byte buffer 3 := by
      simp [bigEndian, List.range_succ]
    have h2 := hbyte 2
    have h3 := hbyte 3
    omega
  · split
    next h127 =>
      simp only [Refused, h127, true_and, not_or, not_not] at h
      obtain ⟨h2, h3, h4, h5, h6⟩ := h
      have hvalue : bigEndian buffer 2 8 = byte buffer 6 * 2 ^ 24 + byte buffer 7 * 2 ^ 16 +
          byte buffer 8 * 2 ^ 8 + byte buffer 9 := by
        simp only [bigEndian, List.range_succ, List.range_zero, List.nil_append, List.foldl_append,
          List.foldl_cons, List.foldl_nil, Nat.reduceAdd, h2, h3, h4, h5]
        omega
      have h6' := (and_eq_zero_iff _ (hbyte 6)).mp h6
      have h7 := hbyte 7
      have h8 := hbyte 8
      have h9 := hbyte 9
      omega
    next =>
      have hshort : byte buffer 1 &&& 0x7f < 128 :=
        Nat.lt_of_le_of_lt Nat.and_le_right (by decide)
      omega

/-! ## The stages -/

theorem require_of_lt {size : ℕ} (h : buffer.length < size) :
    require size buffer = .error .incomplete := if_pos h

theorem error_bind {α β : Type} (e : Unextracted) (f : α → Extract β) :
    ((.error e : Extract α) >>= f) = .error e := rfl

theorem toUInt32_of_lt {n : ℕ} (h : n < 2 ^ 32) : toUInt32 n = n := Nat.mod_eq_of_lt h

/-- The length, read from a buffer that holds it. -/
theorem wsPayloadLen_of_le (h : lengthEnd buffer ≤ buffer.length) :
    wsPayloadLen (byte buffer 1 &&& 0x7f) buffer =
      if Refused buffer then .error .incomplete
      else .ok (announcedLength buffer, lengthEnd buffer) := by
  unfold wsPayloadLen lengthEnd at *
  by_cases h126 : byte buffer 1 &&& 0x7f = 126
  · have haccepted : ¬Refused buffer := fun hrefused => by have := hrefused.1; omega
    obtain ⟨hvalue, hlt⟩ := announcedLength_eq haccepted
    rw [if_pos h126] at h hvalue
    rw [if_pos h126, if_pos h126, if_neg haccepted, require_of_le h, ok_bind,
      byteAt_of_lt (by omega), ok_bind, byteAt_of_lt (by omega), ok_bind, ← hvalue,
      toUInt32_of_lt (by omega)]
    rfl
  · rw [if_neg h126] at h ⊢
    rw [if_neg h126]
    by_cases h127 : byte buffer 1 &&& 0x7f = 127
    · -- The upper half of the length is looked at first, then the highest bit of the lower.
      rw [if_pos h127] at h ⊢
      rw [if_pos h127, require_of_le h, ok_bind, byteAt_of_lt (by omega), ok_bind,
        byteAt_of_lt (by omega), ok_bind, byteAt_of_lt (by omega), ok_bind,
        byteAt_of_lt (by omega), ok_bind]
      by_cases hhigh : byte buffer 2 ≠ 0 ∨ byte buffer 3 ≠ 0 ∨ byte buffer 4 ≠ 0 ∨ byte buffer 5 ≠ 0
      · rw [if_pos hhigh, if_pos ⟨h127, by tauto⟩]
      · rw [if_neg hhigh, byteAt_of_lt (by omega), ok_bind]
        by_cases hbit : byte buffer 6 &&& 0x80 ≠ 0
        · rw [if_pos hbit, if_pos ⟨h127, by tauto⟩]
        · have haccepted : ¬Refused buffer := fun hrefused => by have := hrefused.2; tauto
          obtain ⟨hvalue, hlt⟩ := announcedLength_eq haccepted
          rw [if_neg h126, if_pos h127] at hvalue
          rw [if_neg hbit, if_neg haccepted, byteAt_of_lt (by omega), ok_bind,
            byteAt_of_lt (by omega), ok_bind, byteAt_of_lt (by omega), ok_bind, ← hvalue,
            toUInt32_of_lt (by omega)]
          rfl
    · have haccepted : ¬Refused buffer := fun hrefused => h127 hrefused.1
      obtain ⟨hvalue, -⟩ := announcedLength_eq haccepted
      rw [if_neg h126, if_neg h127] at hvalue
      rw [if_neg h127, if_neg h127, if_neg haccepted, hvalue]

/-- A buffer that ends before its length does. -/
theorem wsPayloadLen_of_lt (h2 : 2 ≤ buffer.length) (h : buffer.length < lengthEnd buffer) :
    wsPayloadLen (byte buffer 1 &&& 0x7f) buffer = .error .incomplete := by
  unfold lengthEnd at h
  unfold wsPayloadLen
  split at h
  next h126 => rw [if_pos h126, require_of_lt h, error_bind]
  next h126 =>
    split at h
    next h127 => rw [if_neg h126, if_pos h127, require_of_lt h, error_bind]
    next => omega

/-- The mask, if there is one. -/
def maskOf (buffer : Bytes) : Option Bytes :=
  if byte buffer 1 &&& 0x80 != 0 then some (slice buffer (lengthEnd buffer) 4) else none

theorem wsMask_eq :
    wsMask (byte buffer 1 &&& 0x80 != 0) (lengthEnd buffer) buffer =
      if lengthEnd buffer < maskEnd buffer ∧ buffer.length < maskEnd buffer then
        .error .incomplete
      else .ok (maskOf buffer, maskEnd buffer) := by
  unfold wsMask maskOf maskEnd
  by_cases hmasking : (byte buffer 1 &&& 0x80 != 0) = true
  · simp only [if_pos hmasking]
    by_cases hlen : buffer.length < lengthEnd buffer + 4
    · rw [require_of_lt hlen, if_pos ⟨by omega, hlen⟩, error_bind]
    · rw [require_of_le (Nat.le_of_not_lt hlen), ok_bind, if_neg (fun h => hlen h.2)]
      unfold bytesAt
      rw [if_pos (Nat.le_of_not_lt hlen), ok_bind]
      rfl
  · simp only [if_neg hmasking, Nat.add_zero, lt_self_iff_false, false_and, if_false]

/-- **Extraction in one equation.**  The frame is there if its header is not refused and
the buffer is as long as the header says. -/
theorem wsFrameExtractBuffer_eq (payload buffer : Bytes) :
    wsFrameExtractBuffer payload buffer =
      if Refused buffer ∨ buffer.length < maskEnd buffer + announcedLength buffer then
        .error .incomplete
      else .ok {
        payload := payload ++
          unmask (maskOf buffer) (slice buffer (maskEnd buffer) (announcedLength buffer))
        opcode := ⟨UInt8.ofNat (byte buffer 0 &&& 0x0f)⟩
        frameSize := maskEnd buffer + announcedLength buffer
        fin := byte buffer 0 &&& 0x80 != 0 } := by
  have hend := lengthEnd_bounds buffer
  have hmaskEnd := maskEnd_bounds buffer
  unfold wsFrameExtractBuffer
  by_cases h2 : buffer.length < 2
  · rw [require_of_lt h2, error_bind, if_pos (.inr (by omega))]
  rw [require_of_le (by omega), ok_bind, byteAt_of_lt (by omega), ok_bind,
    byteAt_of_lt (by omega), ok_bind]
  by_cases hlength : buffer.length < lengthEnd buffer
  · rw [wsPayloadLen_of_lt (by omega) hlength, error_bind, if_pos (.inr (by omega))]
  rw [wsPayloadLen_of_le (Nat.le_of_not_lt hlength)]
  by_cases hrefused : Refused buffer
  · rw [if_pos hrefused, if_pos (.inl hrefused), error_bind]
  rw [if_neg hrefused, ok_bind]
  dsimp only
  rw [wsMask_eq]
  by_cases hmask : lengthEnd buffer < maskEnd buffer ∧ buffer.length < maskEnd buffer
  · rw [if_pos hmask, if_pos (.inr (by omega)), error_bind]
  rw [if_neg hmask, ok_bind]
  dsimp only
  -- Neither of the two sums of `pos` and `payloadlen` wraps around.
  have hlt := (announcedLength_eq hrefused).2
  rw [toUInt32_of_lt (by omega), toUInt32_of_lt (by omega)]
  by_cases hsize : buffer.length < maskEnd buffer + announcedLength buffer
  · rw [require_of_lt hsize, if_pos (.inr hsize), error_bind]
  rw [require_of_le (Nat.le_of_not_lt hsize), ok_bind, if_neg (by tauto), bytesAt,
    if_pos (Nat.le_of_not_lt hsize), ok_bind, Nat.add_comm (announcedLength buffer)]
  rfl

/-! ## Extraction is bounded and determined by the frame -/

theorem bigEndian_congr {buffer' : Bytes} {pos len : ℕ}
    (h : ∀ i < len, byte buffer' (pos + i) = byte buffer (pos + i)) :
    bigEndian buffer' pos len = bigEndian buffer pos len := by
  unfold bigEndian
  refine List.foldl_ext _ _ 0 fun n i hi => ?_
  rw [h i (List.mem_range.mp hi)]

/-- Two buffers that agree up to the end of the length say the same. -/
theorem header_congr {buffer' : Bytes}
    (h : ∀ i < lengthEnd buffer, byte buffer' i = byte buffer i) :
    lengthEnd buffer' = lengthEnd buffer ∧ maskEnd buffer' = maskEnd buffer ∧
      announcedLength buffer' = announcedLength buffer ∧ (Refused buffer' ↔ Refused buffer) := by
  have h1 : byte buffer' 1 = byte buffer 1 := h 1 (by have := lengthEnd_bounds buffer; omega)
  have hend : lengthEnd buffer' = lengthEnd buffer := by simp only [lengthEnd, h1]
  refine ⟨hend, by simp only [maskEnd, hend, h1], ?_, ?_⟩
  · unfold announcedLength
    unfold lengthEnd at h
    rw [h1]
    split
    next h126 =>
      rw [if_pos h126] at h
      exact bigEndian_congr fun i hi => h _ (by omega)
    next h126 =>
      rw [if_neg h126] at h
      split
      next h127 =>
        rw [if_pos h127] at h
        exact bigEndian_congr fun i hi => h _ (by omega)
      next => rfl
  · unfold Refused
    rw [h1]
    by_cases h127 : byte buffer 1 &&& 0x7f = 127
    · have hten : lengthEnd buffer = 10 := by simp [lengthEnd, h127]
      rw [h 2 (by omega), h 3 (by omega), h 4 (by omega), h 5 (by omega), h 6 (by omega)]
    · simp only [h127, false_and]

theorem slice_take {pos len size : ℕ} (h : pos + len ≤ size) :
    slice (buffer.take size) pos len = slice buffer pos len := by
  unfold slice
  rw [List.drop_take, List.take_take, Nat.min_eq_left (by omega)]

/-- Nothing behind the frame is needed. -/
theorem wsFrameExtractBuffer_take {payload : Bytes} {frame : WsFrame}
    (h : wsFrameExtractBuffer payload buffer = .ok frame) :
    wsFrameExtractBuffer payload (buffer.take frame.frameSize) = .ok frame := by
  rw [wsFrameExtractBuffer_eq] at h ⊢
  split at h
  next => cases h
  next hthere =>
    cases h
    dsimp only
    obtain ⟨haccepted, hsize⟩ := not_or.mp hthere
    have hend := lengthEnd_bounds buffer
    have hmaskEnd := maskEnd_bounds buffer
    have hbyte : ∀ i < maskEnd buffer + announcedLength buffer,
        byte (buffer.take (maskEnd buffer + announcedLength buffer)) i = byte buffer i := by
      intro i hi
      simp [byte, List.getElem?_take_of_lt hi]
    obtain ⟨hlengthEnd, hmask, hlength, hrefused⟩ := header_congr
      (fun i hi => hbyte i (by omega))
    have hlen : (buffer.take (maskEnd buffer + announcedLength buffer)).length =
        maskEnd buffer + announcedLength buffer := by
      rw [List.length_take]
      omega
    have hmaskOf : maskOf (buffer.take (maskEnd buffer + announcedLength buffer)) =
        maskOf buffer := by
      unfold maskOf
      rw [hbyte 1 (by omega), hlengthEnd]
      split
      next hmasking => rw [slice_take (by simp only [maskEnd, if_pos hmasking]; omega)]
      next => rfl
    have hthere' : ¬(Refused (buffer.take (maskEnd buffer + announcedLength buffer)) ∨
        (buffer.take (maskEnd buffer + announcedLength buffer)).length <
          maskEnd buffer + announcedLength buffer) := by
      rw [hrefused, hlen]
      exact not_or.mpr ⟨haccepted, Nat.lt_irrefl _⟩
    rw [hmask, hlength, if_neg hthere', hmaskOf, hbyte 0 (by omega), slice_take (Nat.le_refl _)]

/-- The `uint32_t` values that extraction computes from the bytes of a buffer, as far as it
gets, before they are reduced: the length, the position behind the mask, and the position
behind the payload, which is computed twice. -/
def wsLengthSums (buffer : Bytes) : List ℕ :=
  if buffer.length < 2 then []
  else
    match wsPayloadLen (byte buffer 1 &&& 0x7f) buffer with
    | .error _ => []
    | .ok length =>
        (if byte buffer 1 &&& 0x7f = 126 then [byte buffer 2 * 2 ^ 8 + byte buffer 3]
        else if byte buffer 1 &&& 0x7f = 127 then
          [byte buffer 6 * 2 ^ 24 + byte buffer 7 * 2 ^ 16 + byte buffer 8 * 2 ^ 8 + byte buffer 9]
        else [byte buffer 1 &&& 0x7f]) ++
        (if byte buffer 1 &&& 0x80 != 0 then [length.2 + 4] else []) ++
        match wsMask (byte buffer 1 &&& 0x80 != 0) length.2 buffer with
        | .error _ => []
        | .ok mask => [mask.2 + length.1, length.1 + mask.2]

/-- `bool wsFrameExtractBuffer(..., std::string& payload, ...)`: the result, and the string
when the function returns; `none` is a read behind the end of the buffer. -/
def wsFrameExtractInto (payload buffer : Bytes) : Option (Bool × Bytes) :=
  match wsFrameExtractBuffer payload buffer with
  | .ok frame => some (true, frame.payload)
  | .error .incomplete => some (false, payload)
  | .error .outOfRange => none

theorem wsLengthSums_lt {n : ℕ} (hn : n ∈ wsLengthSums buffer) : n < 2 ^ 32 := by
  have hend := lengthEnd_bounds buffer
  have hmaskEnd := maskEnd_bounds buffer
  unfold wsLengthSums at hn
  split at hn
  next => cases hn
  next h2 =>
    by_cases hlength : buffer.length < lengthEnd buffer
    · rw [wsPayloadLen_of_lt (by omega) hlength] at hn
      cases hn
    rw [wsPayloadLen_of_le (Nat.le_of_not_lt hlength)] at hn
    by_cases hrefused : Refused buffer
    · rw [if_pos hrefused] at hn
      cases hn
    rw [if_neg hrefused] at hn
    obtain ⟨hvalue, hlt⟩ := announcedLength_eq hrefused
    simp only [List.mem_append] at hn
    rcases hn with (hn | hn) | hn
    · have hlist : n = announcedLength buffer := by
        rw [hvalue]
        split_ifs at hn ⊢ <;> simpa using hn
      omega
    · split at hn
      · rw [List.mem_singleton] at hn
        omega
      · cases hn
    · rw [wsMask_eq] at hn
      split_ifs at hn
      · cases hn
      · simp only [List.mem_cons, List.not_mem_nil, or_false] at hn
        omega

theorem length_unmask (mask : Option Bytes) (data : Bytes) :
    (unmask mask data).length = data.length := by
  cases mask with
  | none => rfl
  | some mask => exact List.length_mapIdx

theorem wsFrameExtractBuffer_ne_outOfRange (payload buffer : Bytes) :
    wsFrameExtractBuffer payload buffer ≠ .error .outOfRange := by
  rw [wsFrameExtractBuffer_eq]
  split <;> simp

/-- A part of a frame that is not all of it is not extracted. -/
theorem wsFrameExtractBuffer_take_of_lt {payload : Bytes} {frame : WsFrame} {n : ℕ}
    (h : wsFrameExtractBuffer payload buffer = .ok frame) (hn : n < frame.frameSize) :
    wsFrameExtractBuffer payload (buffer.take n) = .error .incomplete := by
  cases hpart : wsFrameExtractBuffer payload (buffer.take n) with
  | error e =>
      cases e with
      | incomplete => rfl
      | outOfRange => exact absurd hpart (wsFrameExtractBuffer_ne_outOfRange _ _)
  | ok part =>
      -- It would be the whole frame, which does not fit into it.
      have hwhole := stable_wsFrameExtractBuffer payload _ (buffer.drop n) part hpart
      rw [List.take_append_drop, h] at hwhole
      cases hwhole
      have hfits := (frameSize_bounds hpart).2
      rw [List.length_take] at hfits
      omega

/-- **Extraction is bounded and determined by the frame.**  On every buffer it reads inside
the buffer, and nothing it computes in `uint32_t` wraps around.  An extracted frame has
at least two bytes and lies in the buffer, its payload is as long as the header says, the
bytes behind it do not matter, and no smaller part of it is extracted. -/
theorem wsFrameExtractBuffer_bounded (payload buffer : Bytes) :
    wsFrameExtractBuffer payload buffer ≠ .error .outOfRange ∧
    (∀ n ∈ wsLengthSums buffer, n < 2 ^ 32) ∧
    ∀ frame, wsFrameExtractBuffer payload buffer = .ok frame →
      (2 ≤ frame.frameSize ∧ frame.frameSize ≤ buffer.length) ∧
      (∃ data, frame.payload = payload ++ data ∧ data.length = announcedLength buffer) ∧
      (∀ rest,
        wsFrameExtractBuffer payload (buffer.take frame.frameSize ++ rest) = .ok frame) ∧
      ∀ n < frame.frameSize, wsFrameExtractInto payload (buffer.take n) = some (false, payload) := by
  refine ⟨wsFrameExtractBuffer_ne_outOfRange payload buffer, fun n hn => wsLengthSums_lt hn,
    fun frame h => ⟨frameSize_bounds h, ?_, fun rest => ?_, fun n hn => ?_⟩⟩
  · rw [wsFrameExtractBuffer_eq] at h
    split at h
    next => cases h
    next hthere =>
      cases h
      refine ⟨_, rfl, ?_⟩
      rw [length_unmask, length_slice (by omega)]
  · exact stable_wsFrameExtractBuffer payload _ rest frame (wsFrameExtractBuffer_take h)
  · rw [wsFrameExtractInto, wsFrameExtractBuffer_take_of_lt h hn]

/-! ## Frames that never come -/

theorem Refused.append (h : Refused buffer) (rest : Bytes) : Refused (buffer ++ rest) := by
  -- A byte that is not zero lies in the buffer.
  have hbyte : ∀ i, byte buffer i ≠ 0 → byte (buffer ++ rest) i = byte buffer i := by
    intro i hne
    refine byte_append (Nat.lt_of_not_le fun hle => hne (byte_eq_zero hle))
  have h1 : byte (buffer ++ rest) 1 = byte buffer 1 := by
    refine hbyte 1 fun hzero => ?_
    have hshort := h.1
    rw [hzero] at hshort
    cases hshort
  refine ⟨h1 ▸ h.1, ?_⟩
  rcases h.2 with h2 | h3 | h4 | h5 | h6
  · exact .inl (hbyte 2 h2 ▸ h2)
  · exact .inr (.inl (hbyte 3 h3 ▸ h3))
  · exact .inr (.inr (.inl (hbyte 4 h4 ▸ h4)))
  · exact .inr (.inr (.inr (.inl (hbyte 5 h5 ▸ h5))))
  · have hne : byte buffer 6 ≠ 0 := fun hzero => h6 (by rw [hzero]; rfl)
    exact .inr (.inr (.inr (.inr (hbyte 6 hne ▸ h6))))

theorem wsFrameExtractBuffer_of_refused (h : Refused buffer) (payload : Bytes) :
    wsFrameExtractBuffer payload buffer = .error .incomplete := by
  rw [wsFrameExtractBuffer_eq, if_pos (.inl h)]

/-- Zeros behind the end change nothing about a header, and enough of them complete it. -/
theorem exists_wsFrameExtractBuffer (h : ¬Refused buffer) (payload : Bytes) :
    ∃ rest frame, wsFrameExtractBuffer payload (buffer ++ rest) = .ok frame := by
  have hbyte : ∀ n i, byte (buffer ++ List.replicate n 0) i = byte buffer i := by
    intro n i
    by_cases hi : i < buffer.length
    · exact byte_append hi
    · rw [byte_eq_zero (Nat.le_of_not_lt hi), byte, List.getD_eq_getElem?_getD,
        List.getElem?_append_right (Nat.le_of_not_lt hi), List.getElem?_replicate]
      split <;> rfl
  let size := maskEnd buffer + announcedLength buffer
  obtain ⟨-, hmask, hlength, hrefused⟩ := header_congr fun i _ => hbyte size i
  have hthere : ¬(Refused (buffer ++ List.replicate size 0) ∨
      (buffer ++ List.replicate size 0).length <
        maskEnd (buffer ++ List.replicate size 0) +
          announcedLength (buffer ++ List.replicate size 0)) := by
    rw [hmask, hlength, hrefused, List.length_append, List.length_replicate]
    exact not_or.mpr ⟨h, by omega⟩
  exact ⟨_, _, (wsFrameExtractBuffer_eq payload _).trans (if_neg hthere)⟩

/-- Behind a refused header nothing is ever handled again. -/
theorem processWebSocket_of_refused {core : HttpCore} (parser : HTTPParser core)
    (session : HttpSession) (h : Refused buffer) (rest : Bytes) :
    (parser.processWebSocket session (buffer ++ rest)).retlen = 0 ∧
      (parser.processWebSocket session (buffer ++ rest)).calls = [] := by
  have hne : buffer ++ rest ≠ [] := by
    intro hnil
    have hrefused := (h.append rest).1
    rw [hnil] at hrefused
    cases hrefused
  rw [HTTPParser.processWebSocket_error hne (wsFrameExtractBuffer_of_refused (h.append rest) [])]
  exact ⟨rfl, rfl⟩

/-- **When "not extracted" means "incomplete"**: exactly when the header is not refused.  Then
there are further bytes that complete the frame. -/
theorem not_extracted_incomplete_iff (payload buffer : Bytes) :
    (wsFrameExtractBuffer payload buffer = .error .incomplete →
      ∃ rest frame, wsFrameExtractBuffer payload (buffer ++ rest) = .ok frame) ↔
    ¬Refused buffer := by
  constructor
  · intro h hrefused
    obtain ⟨rest, frame, hframe⟩ := h (wsFrameExtractBuffer_of_refused hrefused payload)
    rw [wsFrameExtractBuffer_of_refused (hrefused.append rest)] at hframe
    cases hframe
  · intro haccepted _
    exact exists_wsFrameExtractBuffer haccepted payload

/-- The header of a frame of `2 ^ 32` bytes.  No bytes complete it, and the connection, which
waits for them, handles nothing any more. -/
theorem not_extracted_refused_header :
    (wsFrameExtractBuffer [] [0x82, 0x7f, 0, 0, 0, 1, 0, 0, 0, 0] = .error .incomplete ∧
      ¬∃ rest frame, wsFrameExtractBuffer []
        ([0x82, 0x7f, 0, 0, 0, 1, 0, 0, 0, 0] ++ rest) = .ok frame) ∧
    ∀ (core : HttpCore) (parser : HTTPParser core) (session : HttpSession) (rest : Bytes),
      (parser.processWebSocket session
        ([0x82, 0x7f, 0, 0, 0, 1, 0, 0, 0, 0] ++ rest)).retlen = 0 ∧
      (parser.processWebSocket session
        ([0x82, 0x7f, 0, 0, 0, 1, 0, 0, 0, 0] ++ rest)).calls = [] := by
  have hrefused : Refused [0x82, 0x7f, 0, 0, 0, 1, 0, 0, 0, 0] := by decide
  refine ⟨⟨wsFrameExtractBuffer_of_refused hrefused [], ?_⟩, fun core parser session rest =>
    processWebSocket_of_refused parser session hrefused rest⟩
  rintro ⟨rest, frame, hframe⟩
  rw [wsFrameExtractBuffer_of_refused (hrefused.append rest)] at hframe
  cases hframe

end Brynet.Http
