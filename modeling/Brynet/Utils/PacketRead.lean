import Brynet.Utils.Packet

/-!
# What is written is read back

A write hands the bytes of its value in the chosen order to `writeBuffer`, whichever
implementation of the conversions is compiled in, and `writeBuffer` puts them behind
what is there already or leaves everything as it is.  So the data of a writer is the
concatenation of the values it accepted, and a reader that is asked for their types
takes them off one by one.
-/

namespace Brynet

open Endian MachineInt Memory Socketendian

/-! ## The writer -/

namespace BasePacketWriter

variable {w : BasePacketWriter} {malloc : Malloc} {p : Platform} {buffer : List UInt8}

/-- The bytes which each write hands over. -/
theorem write_eq (v : PacketValue) :
    w.write p malloc v = w.writeBuffer malloc (v.wire w.mBigEndian) := by
  cases v with
  | bool v => rw [PacketValue.wire, ordered_one]; rfl
  | int8 v => rw [PacketValue.wire, ordered_one]; rfl
  | uint8 v => rw [PacketValue.wire, ordered_one]; rfl
  | int16 v =>
      simp only [write, writeINT16, UInt16.toUInt16_toInt16, toNat_hostToNetwork16, toLE_ite_swap]
      rfl
  | uint16 v =>
      simp only [write, writeUINT16, toNat_hostToNetwork16, toLE_ite_swap]
      rfl
  | int32 v =>
      simp only [write, writeINT32, UInt32.toUInt32_toInt32, toNat_hostToNetwork32, toLE_ite_swap]
      rfl
  | uint32 v =>
      simp only [write, writeUINT32, toNat_hostToNetwork32, toLE_ite_swap]
      rfl
  | int64 v =>
      simp only [write, writeINT64, UInt64.toUInt64_toInt64, toNat_hostToNetwork64, toLE_ite_swap]
      rfl
  | uint64 v =>
      simp only [write, writeUINT64, toNat_hostToNetwork64, toLE_ite_swap]
      rfl
  | binary v => rfl

/-- The position is within the buffer, which is an object in memory. -/
structure Wf (w : BasePacketWriter) : Prop where
  length_mBuffer : w.mBuffer.length = w.mMaxLen
  mPos_le : w.mPos ≤ w.mMaxLen
  mMaxLen_lt : w.mMaxLen < 2 ^ 63

theorem wf_new (hbuffer : buffer.length < 2 ^ 63) (useBigEndian isAutoMalloc : Bool) :
    (new buffer useBigEndian isAutoMalloc).Wf where
  length_mBuffer := rfl
  mPos_le := Nat.zero_le _
  mMaxLen_lt := hbuffer

/-- The settings of a writer. -/
def settings (w : BasePacketWriter) : Bool × Bool := (w.mBigEndian, w.mIsAutoMalloc)

theorem sizeAdd_of_lt {a b : ℕ} (ha : a < 2 ^ 63) (hb : b < 2 ^ 63) : sizeAdd a b = a + b := by
  apply sizeAdd_eq
  unfold sizeMod
  omega

/-- Either `growBuffer` does nothing, and then there is room or it was not to be had, or it
copies the data into a new block. -/
theorem Wf.growBuffer_cases (wf : w.Wf) (malloc : Malloc) {len : ℕ} (hlen : len < 2 ^ 63) :
    (w.growBuffer malloc len = w ∧
      (w.mIsAutoMalloc = true → w.mMaxLen < w.mPos + len →
        malloc.grants (w.mMaxLen + len) = false)) ∨
    (∃ block : List UInt8, block.length = w.mMaxLen + len ∧ w.mMaxLen + len < 2 ^ 63 ∧
      w.growBuffer malloc len =
        { w with
          mMaxLen := w.mMaxLen + len
          mMallocBuffer := true
          mBuffer := blit block 0 w.data }) := by
  have hpos : w.mPos < 2 ^ 63 := wf.mPos_le.trans_lt wf.mMaxLen_lt
  simp only [growBuffer, sizeAdd_of_lt hpos hlen, sizeAdd_of_lt wf.mMaxLen_lt hlen]
  by_cases hroom : (!w.mIsAutoMalloc || w.mPos + len ≤ w.mMaxLen) = true
  · rw [if_pos hroom]
    refine .inl ⟨rfl, fun hauto hlack => ?_⟩
    simp only [hauto, Bool.not_true, Bool.false_or, decide_eq_true_eq] at hroom
    omega
  · rw [if_neg hroom, Malloc.block]
    cases hgrants : malloc.grants (w.mMaxLen + len) with
    | false => exact .inl ⟨rfl, fun _ _ => rfl⟩
    | true =>
        refine .inr ⟨(List.range (w.mMaxLen + len)).map malloc.junk, ?_, ?_, rfl⟩
        · rw [List.length_map, List.length_range]
        · exact malloc.lt_of_grants _ hgrants

theorem Wf.length_data (wf : w.Wf) : w.data.length = w.mPos := by
  rw [data, List.length_take, wf.length_mBuffer, min_eq_left wf.mPos_le]

/-- What `growBuffer` leaves, and the room it makes. -/
theorem Wf.growBuffer (wf : w.Wf) (malloc : Malloc) {len : ℕ} (hlen : len < 2 ^ 63) :
    (w.growBuffer malloc len).Wf ∧ (w.growBuffer malloc len).mPos = w.mPos ∧
      (w.growBuffer malloc len).data = w.data ∧
      (w.growBuffer malloc len).settings = w.settings ∧
      (w.mIsAutoMalloc = true →
        (w.mMaxLen < w.mPos + len → malloc.grants (w.mMaxLen + len) = true) →
        w.mPos + len ≤ (w.growBuffer malloc len).mMaxLen) := by
  obtain ⟨heq, hroom⟩ | ⟨block, hblock, hlt, heq⟩ := wf.growBuffer_cases malloc hlen
  · rw [heq]
    refine ⟨wf, rfl, rfl, rfl, fun hauto hgrants => ?_⟩
    by_contra hlack
    rw [hroom hauto (by omega)] at hgrants
    cases hgrants (by omega)
  · have hpos := wf.mPos_le
    have hdata : w.data.length ≤ block.length := by
      rw [wf.length_data]
      omega
    rw [heq]
    refine ⟨⟨?_, ?_, hlt⟩, rfl, ?_, rfl, ?_⟩
    · rw [length_blit (by omega), hblock]
    · simp only
      omega
    · have hslice := slice_blit_zero hdata
      rw [wf.length_data] at hslice
      exact hslice
    · intro _ _
      simp only
      omega

/-- **A write appends its bytes, or leaves the data as it is.** -/
theorem Wf.writeBuffer (wf : w.Wf) (malloc : Malloc) (hlen : buffer.length < 2 ^ 63) :
    (w.writeBuffer malloc buffer).1.Wf ∧
      (w.writeBuffer malloc buffer).1.settings = w.settings ∧
      (w.writeBuffer malloc buffer).1.data =
        (if (w.writeBuffer malloc buffer).2 then w.data ++ buffer else w.data) ∧
      (w.mIsAutoMalloc = true →
        (w.mMaxLen < w.mPos + buffer.length →
          malloc.grants (w.mMaxLen + buffer.length) = true) →
        (w.writeBuffer malloc buffer).2 = true) := by
  obtain ⟨hwf, hpos, hdata, hsettings, hroom⟩ := wf.growBuffer malloc hlen
  have hposlt : (w.growBuffer malloc buffer.length).mPos < 2 ^ 63 :=
    hwf.mPos_le.trans_lt hwf.mMaxLen_lt
  simp only [BasePacketWriter.writeBuffer, sizeAdd_of_lt hposlt hlen]
  by_cases hfull : (w.growBuffer malloc buffer.length).mMaxLen <
      (w.growBuffer malloc buffer.length).mPos + buffer.length
  · rw [if_pos hfull]
    refine ⟨hwf, hsettings, hdata, fun hauto hgrants => ?_⟩
    have := hroom hauto hgrants
    omega
  · rw [if_neg hfull]
    have hfits : (w.growBuffer malloc buffer.length).mPos + buffer.length ≤
        (w.growBuffer malloc buffer.length).mBuffer.length := by
      rw [hwf.length_mBuffer]
      omega
    refine ⟨⟨?_, by simpa using hfull, hwf.mMaxLen_lt⟩, hsettings, ?_, fun _ _ => rfl⟩
    · rw [length_blit hfits, hwf.length_mBuffer]
    · have hslice := slice_blit (Nat.zero_le _) hfits
      rw [if_pos rfl, ← hdata]
      exact hslice

/-- What a write of a value does. -/
theorem Wf.write (wf : w.Wf) (p : Platform) (malloc : Malloc) {v : PacketValue}
    (hv : v.size < 2 ^ 63) :
    (w.write p malloc v).1.Wf ∧
      (w.write p malloc v).1.settings = w.settings ∧
      (w.write p malloc v).1.data =
        (if (w.write p malloc v).2 then w.data ++ v.wire w.mBigEndian else w.data) ∧
      (w.mIsAutoMalloc = true →
        (w.mMaxLen < w.mPos + v.size → malloc.grants (w.mMaxLen + v.size) = true) →
        (w.write p malloc v).2 = true) := by
  rw [write_eq, ← v.length_wire w.mBigEndian]
  rw [← v.length_wire w.mBigEndian] at hv
  exact wf.writeBuffer malloc hv

/-- **The data of a writer are the values it accepted.** -/
theorem Wf.writeAll (wf : w.Wf) (p : Platform) {calls : List (Malloc × PacketValue)}
    (hcalls : ∀ call ∈ calls, call.2.size < 2 ^ 63) :
    (w.writeAll p calls).1.Wf ∧
      (w.writeAll p calls).1.settings = w.settings ∧
      (w.writeAll p calls).1.data =
        w.data ++ (w.writeAll p calls).2.flatMap (PacketValue.wire w.mBigEndian) := by
  induction calls generalizing w with
  | nil => exact ⟨wf, rfl, by simp [BasePacketWriter.writeAll]⟩
  | cons call rest ih =>
      obtain ⟨malloc, v⟩ := call
      obtain ⟨hwf, hsettings, hdata, -⟩ := wf.write p malloc (hcalls (malloc, v) List.mem_cons_self)
      obtain ⟨hwf', hsettings', hdata'⟩ :=
        ih hwf fun other hother => hcalls other (List.mem_cons_of_mem _ hother)
      have hbig : (w.write p malloc v).1.mBigEndian = w.mBigEndian := congrArg Prod.fst hsettings
      refine ⟨hwf', hsettings'.trans hsettings, ?_⟩
      rw [hbig, hdata] at hdata'
      simp only [BasePacketWriter.writeAll]
      rw [hdata']
      cases (w.write p malloc v).2 with
      | false => rfl
      | true => simp

end BasePacketWriter

/-! ## The reader -/

namespace BasePacketReader

variable {r : BasePacketReader} {bytes rest : List UInt8}

/-- The bytes the reader has still to read. -/
structure Ahead (r : BasePacketReader) (rest : List UInt8) : Prop where
  mPos_le : r.mPos ≤ r.mMaxLen
  mMaxLen_lt : r.mMaxLen < 2 ^ 63
  within : r.mMaxLen ≤ r.mBuffer.length
  rest_eq : slice r.mBuffer r.mPos (r.mMaxLen - r.mPos) = rest

/-- The reader `n` bytes further on. -/
def skip (r : BasePacketReader) (n : ℕ) : BasePacketReader := { r with mPos := r.mPos + n }

theorem Ahead.read (h : r.Ahead (bytes ++ rest)) :
    r.read bytes.length = (bytes, r.skip bytes.length) ∧ (r.skip bytes.length).Ahead rest := by
  have hlen : bytes.length + rest.length = r.mMaxLen - r.mPos := by
    have hslice := congrArg List.length h.rest_eq
    rw [length_slice, List.length_append] at hslice
    · exact hslice.symm
    · have := h.within
      have := h.mPos_le
      omega
  have hle := h.mPos_le
  have hlt := h.mMaxLen_lt
  have hadd : sizeAdd r.mPos bytes.length = r.mPos + bytes.length :=
    BasePacketWriter.sizeAdd_of_lt (by omega) (by omega)
  have htake : slice r.mBuffer r.mPos bytes.length = bytes := by
    have hfirst := congrArg (List.take bytes.length) h.rest_eq
    rwa [List.take_left, slice, List.take_take, min_eq_left (by omega)] at hfirst
  have hdrop : slice r.mBuffer (r.mPos + bytes.length) (r.mMaxLen - (r.mPos + bytes.length)) =
      rest := by
    have hrest := congrArg (List.drop bytes.length) h.rest_eq
    rwa [List.drop_left, drop_slice, Nat.sub_sub] at hrest
  refine ⟨?_, ?_, hlt, h.within, hdrop⟩
  · rw [BasePacketReader.read, hadd, if_pos (by omega), htake]
    rfl
  · change r.mPos + bytes.length ≤ r.mMaxLen
    omega

theorem Ahead.read_ordered {n v : ℕ} (h : r.Ahead (ordered r.mBigEndian n v ++ rest)) :
    r.read n = (ordered r.mBigEndian n v, r.skip n) := by
  have hread := h.read.1
  rwa [length_ordered] at hread

theorem Ahead.readUINT8 {v : UInt8} (h : r.Ahead (ordered r.mBigEndian 1 v.toNat ++ rest)) :
    r.readUINT8 = (v, r.skip 1) := by
  have hvalue : ofLE (ordered r.mBigEndian 1 v.toNat) = v.toNat := by
    rw [ordered_one, ofLE_toLE, pow_one, Nat.mod_eq_of_lt v.toNat_lt]
  simp only [BasePacketReader.readUINT8, h.read_ordered, hvalue, UInt8.ofNat_toNat]

theorem Ahead.readBool {v : Bool} (h : r.Ahead (ordered r.mBigEndian 1 v.toNat ++ rest)) :
    r.readBool = (v, r.skip 1) := by
  have hvalue : ofLE (ordered r.mBigEndian 1 v.toNat) = v.toNat := by
    rw [ordered_one]
    cases v <;> rfl
  simp only [BasePacketReader.readBool, h.read_ordered, hvalue]
  cases v <;> rfl

theorem Ahead.readUINT16 (q : Platform) {v : UInt16}
    (h : r.Ahead (ordered r.mBigEndian 2 v.toNat ++ rest)) :
    r.readUINT16 q = (v, r.skip 2) := by
  simp only [BasePacketReader.readUINT16, h.read_ordered, ofNat_ordered16 q]
  exact congrArg (·, r.skip 2) (networkToHost16_hostToNetwork16 q q v r.mBigEndian)

theorem Ahead.readUINT32 (q : Platform) {v : UInt32}
    (h : r.Ahead (ordered r.mBigEndian 4 v.toNat ++ rest)) :
    r.readUINT32 q = (v, r.skip 4) := by
  simp only [BasePacketReader.readUINT32, h.read_ordered, ofNat_ordered32 q]
  exact congrArg (·, r.skip 4) (networkToHost32_hostToNetwork32 q q v r.mBigEndian)

theorem Ahead.readUINT64 (q : Platform) {v : UInt64}
    (h : r.Ahead (ordered r.mBigEndian 8 v.toNat ++ rest)) :
    r.readUINT64 q = (v, r.skip 8) := by
  simp only [BasePacketReader.readUINT64, h.read_ordered, ofNat_ordered64 q]
  exact congrArg (·, r.skip 8) (networkToHost64_hostToNetwork64 q q v r.mBigEndian)

theorem Ahead.readBytes (h : r.Ahead (bytes ++ rest)) :
    r.readBytes bytes.length = (bytes, r.skip bytes.length) := by
  induction bytes generalizing r with
  | nil => rfl
  | cons b bytes ih =>
      have hsplit : r.Ahead (ordered r.mBigEndian 1 b.toNat ++ (bytes ++ rest)) := by
        rw [ordered_one]
        simpa [toLE] using h
      have hahead : (r.skip 1).Ahead (bytes ++ rest) := by
        have hread := hsplit.read.2
        rwa [length_ordered] at hread
      rw [List.length_cons, BasePacketReader.readBytes, hsplit.readUINT8]
      simp only [ih hahead]
      simp [skip, Nat.add_comm, Nat.add_left_comm]

/-- A value comes back as it was written, by whichever conversions.  The signed reads are
the unsigned ones, converted. -/
theorem Ahead.readValue (q : Platform) {v : PacketValue}
    (h : r.Ahead (v.wire r.mBigEndian ++ rest)) :
    r.readValue q v.type = (v, r.skip v.size) := by
  cases v with
  | bool v => exact congrArg (Prod.map PacketValue.bool id) h.readBool
  | int8 v =>
      calc r.readValue q .int8 = r.readUINT8.map (PacketValue.int8 ∘ UInt8.toInt8) id := rfl
        _ = (.int8 v.toUInt8.toInt8, r.skip 1) := by rw [Ahead.readUINT8 h]; rfl
        _ = (.int8 v, r.skip 1) := by rw [Int8.toInt8_toUInt8]
  | uint8 v => exact congrArg (Prod.map PacketValue.uint8 id) (Ahead.readUINT8 h)
  | int16 v =>
      calc r.readValue q .int16 = (r.readUINT16 q).map (PacketValue.int16 ∘ UInt16.toInt16) id := rfl
        _ = (.int16 v.toUInt16.toInt16, r.skip 2) := by rw [Ahead.readUINT16 q h]; rfl
        _ = (.int16 v, r.skip 2) := by rw [Int16.toInt16_toUInt16]
  | uint16 v => exact congrArg (Prod.map PacketValue.uint16 id) (Ahead.readUINT16 q h)
  | int32 v =>
      calc r.readValue q .int32 = (r.readUINT32 q).map (PacketValue.int32 ∘ UInt32.toInt32) id := rfl
        _ = (.int32 v.toUInt32.toInt32, r.skip 4) := by rw [Ahead.readUINT32 q h]; rfl
        _ = (.int32 v, r.skip 4) := by rw [Int32.toInt32_toUInt32]
  | uint32 v => exact congrArg (Prod.map PacketValue.uint32 id) (Ahead.readUINT32 q h)
  | int64 v =>
      calc r.readValue q .int64 = (r.readUINT64 q).map (PacketValue.int64 ∘ UInt64.toInt64) id := rfl
        _ = (.int64 v.toUInt64.toInt64, r.skip 8) := by rw [Ahead.readUINT64 q h]; rfl
        _ = (.int64 v, r.skip 8) := by rw [Int64.toInt64_toUInt64]
  | uint64 v => exact congrArg (Prod.map PacketValue.uint64 id) (Ahead.readUINT64 q h)
  | binary v => exact congrArg (Prod.map PacketValue.binary id) (Ahead.readBytes h)

/-- Reading the types of values returns the values. -/
theorem Ahead.readAll (q : Platform) {vs : List PacketValue}
    (h : r.Ahead (vs.flatMap (PacketValue.wire r.mBigEndian) ++ rest)) :
    r.readAll q (vs.map PacketValue.type) =
      (vs, r.skip (vs.flatMap (PacketValue.wire r.mBigEndian)).length) := by
  induction vs generalizing r with
  | nil => rfl
  | cons v vs ih =>
      rw [List.flatMap_cons, List.append_assoc] at h
      have hahead := h.read.2
      rw [v.length_wire] at hahead
      have hvs := ih (r := r.skip v.size) hahead
      rw [List.map_cons, BasePacketReader.readAll, h.readValue q]
      simp only [hvs, List.flatMap_cons, List.length_append, v.length_wire]
      rw [skip, skip, skip, Nat.add_assoc]

end BasePacketReader

namespace BasePacketWriter

variable {w : BasePacketWriter}

theorem Wf.ahead (wf : w.Wf) : (BasePacketReader.new w.mBuffer w.mPos w.mBigEndian).Ahead w.data where
  mPos_le := Nat.zero_le _
  mMaxLen_lt := wf.mPos_le.trans_lt wf.mMaxLen_lt
  within := wf.mPos_le.trans_eq wf.length_mBuffer.symm
  rest_eq := rfl

/-- The reader of a writer's data returns the values they are made of, and stops where the
writer is. -/
theorem Wf.readAll (wf : w.Wf) (q : Platform) {written : List PacketValue}
    (hdata : w.data = written.flatMap (PacketValue.wire w.mBigEndian)) :
    (BasePacketReader.new w.mBuffer w.mPos w.mBigEndian).readAll q
        (written.map PacketValue.type) =
      (written, (BasePacketReader.new w.mBuffer w.mPos w.mBigEndian).skip w.mPos) := by
  have hahead := wf.ahead
  rw [hdata, ← List.append_nil (written.flatMap _)] at hahead
  have hread := BasePacketReader.Ahead.readAll q hahead
  rw [hread, ← wf.length_data, hdata]
  rfl

/-- **Packets.**  After any writes the position is within the buffer and the data are the
values that were accepted, in the chosen byte order.  One more write appends to the data or
leaves them, and a writer that may grow accepts it if it gets the memory.  A reader returns
the accepted values, and is then at the position of the writer. -/
theorem writes_read_back (p q : Platform) {buffer : List UInt8} (hbuffer : buffer.length < 2 ^ 63)
    (bigEndian autoGrow : Bool) {calls : List (Malloc × PacketValue)}
    (hcalls : ∀ call ∈ calls, call.2.size < 2 ^ 63) {w : BasePacketWriter}
    {written : List PacketValue}
    (hwrites : (new buffer bigEndian autoGrow).writeAll p calls = (w, written)) :
    w.mPos ≤ w.mMaxLen ∧
    w.data = written.flatMap (PacketValue.wire bigEndian) ∧
    (∀ (malloc : Malloc) (v : PacketValue), v.size < 2 ^ 63 →
      w.data <+: (w.write p malloc v).1.data ∧
      ((w.write p malloc v).2 = false →
        (w.write p malloc v).1.mPos = w.mPos ∧ (w.write p malloc v).1.data = w.data) ∧
      (autoGrow = true →
        (w.mMaxLen < w.mPos + v.size → malloc.grants (w.mMaxLen + v.size) = true) →
        (w.write p malloc v).2 = true)) ∧
    ((BasePacketReader.new w.mBuffer w.mPos bigEndian).readAll q
        (written.map PacketValue.type)).1 = written ∧
    ((BasePacketReader.new w.mBuffer w.mPos bigEndian).readAll q
        (written.map PacketValue.type)).2.mPos = w.mPos := by
  obtain ⟨hwf, hsettings, hdata⟩ := (wf_new hbuffer bigEndian autoGrow).writeAll p hcalls
  rw [hwrites] at hwf hsettings hdata
  obtain ⟨hbig, hauto⟩ := Prod.mk.inj hsettings
  simp only [new, data, List.take_zero, List.nil_append] at hbig hauto hdata
  refine ⟨hwf.mPos_le, hdata, ?_, ?_⟩
  · intro malloc v hv
    obtain ⟨hwf', -, hdata', hgrow⟩ := hwf.write p malloc hv
    refine ⟨?_, ?_, fun htrue => hgrow (hauto.trans htrue)⟩
    · rw [hdata']
      split
      · exact List.prefix_append _ _
      · exact List.prefix_refl _
    · intro hfalse
      rw [hfalse, if_neg Bool.false_ne_true] at hdata'
      refine ⟨?_, hdata'⟩
      rw [← hwf'.length_data, hdata', hwf.length_data]
  · rw [← hbig] at hdata ⊢
    rw [hwf.readAll q hdata]
    exact ⟨rfl, Nat.zero_add _⟩

/-- Three values in a buffer of two bytes that grows. -/
theorem writes_read_back_growing :
    let malloc : Malloc := { Allocator.unlimited with junk := fun _ => 0xCD }
    let calls := [(malloc, PacketValue.int16 (-2)), (malloc, .uint32 0x01020304),
      (malloc, .binary [7, 8, 9])]
    ∃ w written, (new [0, 0] true true).writeAll .windows calls = (w, written) ∧
      written = calls.map Prod.snd ∧
      w.data = [0xFF, 0xFE, 1, 2, 3, 4, 7, 8, 9] ∧
      ((BasePacketReader.new w.mBuffer w.mPos true).readAll .posix
        (written.map PacketValue.type)).1 = written := by
  intro malloc calls
  obtain ⟨w, written, hwrites⟩ :
      ∃ w written, (new [0, 0] true true).writeAll .windows calls = (w, written) := ⟨_, _, rfl⟩
  have hcalls : ∀ call ∈ calls, call.2.size < 2 ^ 63 := by
    simp [calls, PacketValue.size]
  have hwritten : written = calls.map Prod.snd := by
    rw [← (Prod.mk.inj hwrites).2]
    decide
  obtain ⟨-, hdata, -, hread, -⟩ :=
    writes_read_back .windows .posix (by decide) true true hcalls hwrites
  refine ⟨w, written, hwrites, hwritten, ?_, hread⟩
  rw [hdata, hwritten]
  decide

end BasePacketWriter

end Brynet
