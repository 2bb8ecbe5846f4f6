import Brynet.Lib.MachineInt
import Brynet.Lib.Memory
import Brynet.Utils.Socketendian

/-!
# `BasePacketWriter` and `BasePacketReader`

Typed values written into a block of memory and read from it.  The host is little-endian:
an object of `n` bytes with the value `v` is `toLE n v`.  With `mBigEndian` the values of
more than one byte are converted to network order before they are stored, and back when
they have been read.

`malloc` returns a block with anything in it, or null.  The reader has no operation for
blobs: their bytes are read one after the other.
-/

namespace Brynet

open Endian MachineInt Memory Socketendian

/-! ## Values -/

inductive PacketType
  | bool
  | int8
  | uint8
  | int16
  | uint16
  | int32
  | uint32
  | int64
  | uint64
  | binary (len : ℕ)
deriving Repr, DecidableEq

inductive PacketValue
  | bool (v : Bool)
  | int8 (v : Int8)
  | uint8 (v : UInt8)
  | int16 (v : Int16)
  | uint16 (v : UInt16)
  | int32 (v : Int32)
  | uint32 (v : UInt32)
  | int64 (v : Int64)
  | uint64 (v : UInt64)
  | binary (v : List UInt8)
deriving DecidableEq

namespace PacketValue

def type : PacketValue → PacketType
  | bool _ => .bool
  | int8 _ => .int8
  | uint8 _ => .uint8
  | int16 _ => .int16
  | uint16 _ => .uint16
  | int32 _ => .int32
  | uint32 _ => .uint32
  | int64 _ => .int64
  | uint64 _ => .uint64
  | binary v => .binary v.length

/-- The value in one byte order or the other, signed numbers in two's complement. -/
def wire (bigEndian : Bool) : PacketValue → List UInt8
  | bool v => ordered bigEndian 1 v.toNat
  | int8 v => ordered bigEndian 1 v.toUInt8.toNat
  | uint8 v => ordered bigEndian 1 v.toNat
  | int16 v => ordered bigEndian 2 v.toUInt16.toNat
  | uint16 v => ordered bigEndian 2 v.toNat
  | int32 v => ordered bigEndian 4 v.toUInt32.toNat
  | uint32 v => ordered bigEndian 4 v.toNat
  | int64 v => ordered bigEndian 8 v.toUInt64.toNat
  | uint64 v => ordered bigEndian 8 v.toNat
  | binary v => v

/-- How many bytes the value takes. -/
def size : PacketValue → ℕ
  | bool _ | int8 _ | uint8 _ => 1
  | int16 _ | uint16 _ => 2
  | int32 _ | uint32 _ => 4
  | int64 _ | uint64 _ => 8
  | binary v => v.length

theorem length_wire (bigEndian : Bool) (v : PacketValue) : (v.wire bigEndian).length = v.size := by
  cases v <;> simp [wire, size]

end PacketValue

/-! ## The writer -/

/-- What `malloc` does in a call: which sizes it grants, and what is in the block. -/
structure Malloc extends Allocator where
  junk : ℕ → UInt8

def Malloc.block (malloc : Malloc) (n : ℕ) : Option (List UInt8) :=
  if malloc.grants n then some ((List.range n).map malloc.junk) else none

/-- `mBuffer` is the memory it points to, and `mMallocBuffer` whether it was allocated by
the writer. -/
structure BasePacketWriter where
  mBigEndian : Bool
  mPos : ℕ
  mMaxLen : ℕ
  mBuffer : List UInt8
  mIsAutoMalloc : Bool
  mMallocBuffer : Bool
deriving DecidableEq

namespace BasePacketWriter

/-- The constructor, for a buffer of as many bytes as it is told. -/
def new (buffer : List UInt8) (useBigEndian isAutoMalloc : Bool) : BasePacketWriter where
  mBigEndian := useBigEndian
  mPos := 0
  mMaxLen := buffer.length
  mBuffer := buffer
  mIsAutoMalloc := isAutoMalloc
  mMallocBuffer := false

def growBuffer (w : BasePacketWriter) (malloc : Malloc) (len : ℕ) : BasePacketWriter :=
  if !w.mIsAutoMalloc || sizeAdd w.mPos len ≤ w.mMaxLen then w
  else
    match malloc.block (sizeAdd w.mMaxLen len) with
    | none => w
    | some newBuffer =>
        { w with
          mMaxLen := sizeAdd w.mMaxLen len
          mMallocBuffer := true
          mBuffer := blit newBuffer 0 (slice w.mBuffer 0 w.mPos) }

def writeBuffer (w : BasePacketWriter) (malloc : Malloc) (buffer : List UInt8) :
    BasePacketWriter × Bool :=
  let w := w.growBuffer malloc buffer.length
  if w.mMaxLen < sizeAdd w.mPos buffer.length then (w, false)
  else
    ({ w with
        mBuffer := blit w.mBuffer w.mPos buffer
        mPos := sizeAdd w.mPos buffer.length }, true)

variable (p : Platform) (w : BasePacketWriter) (malloc : Malloc)

def writeBool (value : Bool) : BasePacketWriter × Bool :=
  w.writeBuffer malloc (toLE 1 value.toNat)

def writeINT8 (value : Int8) : BasePacketWriter × Bool :=
  w.writeBuffer malloc (toLE 1 value.toUInt8.toNat)

def writeUINT8 (value : UInt8) : BasePacketWriter × Bool :=
  w.writeBuffer malloc (toLE 1 value.toNat)

def writeINT16 (value : Int16) : BasePacketWriter × Bool :=
  let value := (hostToNetwork16 p value.toUInt16 w.mBigEndian).toInt16
  w.writeBuffer malloc (toLE 2 value.toUInt16.toNat)

def writeUINT16 (value : UInt16) : BasePacketWriter × Bool :=
  let value := hostToNetwork16 p value w.mBigEndian
  w.writeBuffer malloc (toLE 2 value.toNat)

def writeINT32 (value : Int32) : BasePacketWriter × Bool :=
  let value := (hostToNetwork32 p value.toUInt32 w.mBigEndian).toInt32
  w.writeBuffer malloc (toLE 4 value.toUInt32.toNat)

def writeUINT32 (value : UInt32) : BasePacketWriter × Bool :=
  let value := hostToNetwork32 p value w.mBigEndian
  w.writeBuffer malloc (toLE 4 value.toNat)

def writeINT64 (value : Int64) : BasePacketWriter × Bool :=
  let value := (hostToNetwork64 p value.toUInt64 w.mBigEndian).toInt64
  w.writeBuffer malloc (toLE 8 value.toUInt64.toNat)

def writeUINT64 (value : UInt64) : BasePacketWriter × Bool :=
  let value := hostToNetwork64 p value w.mBigEndian
  w.writeBuffer malloc (toLE 8 value.toNat)

def writeBinary (binary : List UInt8) : BasePacketWriter × Bool :=
  w.writeBuffer malloc binary

/-- The operation that writes a value of its type. -/
def write : PacketValue → BasePacketWriter × Bool
  | .bool v => w.writeBool malloc v
  | .int8 v => w.writeINT8 malloc v
  | .uint8 v => w.writeUINT8 malloc v
  | .int16 v => w.writeINT16 p malloc v
  | .uint16 v => w.writeUINT16 p malloc v
  | .int32 v => w.writeINT32 p malloc v
  | .uint32 v => w.writeUINT32 p malloc v
  | .int64 v => w.writeINT64 p malloc v
  | .uint64 v => w.writeUINT64 p malloc v
  | .binary v => w.writeBinary malloc v

/-- A sequence of writes, with the values of those that returned true. -/
def writeAll (w : BasePacketWriter) :
    List (Malloc × PacketValue) → BasePacketWriter × List PacketValue
  | [] => (w, [])
  | (malloc, v) :: rest =>
      let (w', ok) := w.write p malloc v
      let (w'', written) := writeAll w' rest
      (w'', if ok then v :: written else written)

/-- The bytes written so far. -/
def data : List UInt8 := w.mBuffer.take w.mPos

end BasePacketWriter

/-! ## The reader -/

structure BasePacketReader where
  mBigEndian : Bool
  mPos : ℕ
  mMaxLen : ℕ
  mBuffer : List UInt8
deriving DecidableEq

namespace BasePacketReader

def new (buffer : List UInt8) (len : ℕ) (useBigEndian : Bool) : BasePacketReader where
  mBigEndian := useBigEndian
  mPos := 0
  mMaxLen := len
  mBuffer := buffer

variable (p : Platform) (r : BasePacketReader)

def getLeft : ℕ := sizeSub r.mMaxLen r.mPos

def skipAll : BasePacketReader := { r with mPos := r.mMaxLen }

/-- The sum is a `size_t`, so the first comparison always holds. -/
def addPos (value : Int32) : BasePacketReader :=
  let tmp := sizeAdd r.mPos (ofInt32 value.toInt)
  if 0 ≤ tmp ∧ tmp ≤ r.mMaxLen then { r with mPos := tmp } else r

/-- The bytes of an object.  A read beyond the end fails an assertion; in a build without
assertions the object stays zero. -/
def read (size : ℕ) : List UInt8 × BasePacketReader :=
  if sizeAdd r.mPos size ≤ r.mMaxLen then
    (slice r.mBuffer r.mPos size, { r with mPos := sizeAdd r.mPos size })
  else (List.replicate size 0, r)

def readBool : Bool × BasePacketReader :=
  let (value, r) := r.read 1
  (ofLE value ≠ 0, r)

def readINT8 : Int8 × BasePacketReader :=
  let (value, r) := r.read 1
  ((UInt8.ofNat (ofLE value)).toInt8, r)

def readUINT8 : UInt8 × BasePacketReader :=
  let (value, r) := r.read 1
  (.ofNat (ofLE value), r)

def readINT16 : Int16 × BasePacketReader :=
  let (value, r) := r.read 2
  ((networkToHost16 p (.ofNat (ofLE value)) r.mBigEndian).toInt16, r)

def readUINT16 : UInt16 × BasePacketReader :=
  let (value, r) := r.read 2
  (networkToHost16 p (.ofNat (ofLE value)) r.mBigEndian, r)

def readINT32 : Int32 × BasePacketReader :=
  let (value, r) := r.read 4
  ((networkToHost32 p (.ofNat (ofLE value)) r.mBigEndian).toInt32, r)

def readUINT32 : UInt32 × BasePacketReader :=
  let (value, r) := r.read 4
  (networkToHost32 p (.ofNat (ofLE value)) r.mBigEndian, r)

def readINT64 : Int64 × BasePacketReader :=
  let (value, r) := r.read 8
  ((networkToHost64 p (.ofNat (ofLE value)) r.mBigEndian).toInt64, r)

def readUINT64 : UInt64 × BasePacketReader :=
  let (value, r) := r.read 8
  (networkToHost64 p (.ofNat (ofLE value)) r.mBigEndian, r)

/-- As many bytes, with `readUINT8`. -/
def readBytes (r : BasePacketReader) : ℕ → List UInt8 × BasePacketReader
  | 0 => ([], r)
  | len + 1 =>
      let (b, r) := r.readUINT8
      let (rest, r) := readBytes r len
      (b :: rest, r)

/-- The operation that reads a value of this type. -/
def readValue : PacketType → PacketValue × BasePacketReader
  | .bool => r.readBool.map .bool id
  | .int8 => r.readINT8.map .int8 id
  | .uint8 => r.readUINT8.map .uint8 id
  | .int16 => (r.readINT16 p).map .int16 id
  | .uint16 => (r.readUINT16 p).map .uint16 id
  | .int32 => (r.readINT32 p).map .int32 id
  | .uint32 => (r.readUINT32 p).map .uint32 id
  | .int64 => (r.readINT64 p).map .int64 id
  | .uint64 => (r.readUINT64 p).map .uint64 id
  | .binary len => (r.readBytes len).map .binary id

def readAll (r : BasePacketReader) : List PacketType → List PacketValue × BasePacketReader
  | [] => ([], r)
  | type :: rest =>
      let (v, r) := r.readValue p type
      let (vs, r) := readAll r rest
      (v :: vs, r)

end BasePacketReader

end Brynet
