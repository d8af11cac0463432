import CollectorMemory.Chunk.Kind

/-!
# Chunk headers

The first two words of every chunk are its header: a sentinel, then one word that packs the kind in
bits 0 to 2, the space in bit 3, the origin in bits 4 to 6, the free flag in bit 7 and the size in
words above them. A node knows its chunks through their headers only, so reading accepts any two
words and keeps the codes as they are.
-/

namespace CollectorMemory

/-- The fields of two header words, with codes that need not be valid. -/
structure Header where
  /-- The first word; a chunk that is alive carries `Header.alive`. -/
  sentinel : UInt64
  /-- The code of the kind. -/
  kindCode : UInt8
  /-- Whether the chunk holds class metadata. -/
  isClass : Bool
  /-- The code of the origin. -/
  originCode : UInt8
  /-- Whether the chunk is tagged free. -/
  isFree : Bool
  /-- The size of the chunk in words, header included. -/
  size : UInt64
deriving DecidableEq

namespace Header

/-- The sentinel of a chunk that is alive. -/
def alive : UInt64 := 0x4d4554EF

/-- The sentinel written over a chunk that became part of another one. -/
def absorbed : UInt64 := 0xFEEEEEEF

/-- Alignment of metadata objects in bytes. -/
def objectAlignment : Nat := 8

/-- The number of words that a header takes. -/
def words : Nat := 2

/-- Read a header from its two words. -/
def decode (first second : UInt64) : Header where
  sentinel := first
  kindCode := (second &&& 0b111).toUInt8
  isClass := (second >>> 3) &&& 1 != 0
  originCode := ((second >>> 4) &&& 0b111).toUInt8
  isFree := (second >>> 7) &&& 1 != 0
  size := second >>> 8

/-- The second word of a header; codes lose all but three bits and the size its upper eight. -/
def packed (header : Header) : UInt64 :=
  let kind : UInt64 := header.kindCode.toUInt64 &&& 0b111
  let space : UInt64 := header.isClass.toUInt64 <<< 3
  let origin : UInt64 := (header.originCode.toUInt64 &&& 0b111) <<< 4
  let free : UInt64 := header.isFree.toUInt64 <<< 7
  kind ||| space ||| origin ||| free ||| header.size <<< 8

/-- Write a header as its two words. -/
def encode (header : Header) : UInt64 × UInt64 := (header.sentinel, header.packed)

/-- Whether the header belongs to a chunk that is alive. -/
def isAlive (header : Header) : Bool := header.sentinel == alive

/-- The kind, if its code is valid. -/
def kind? (header : Header) : Option Kind := Kind.ofCode? header.kindCode

/-- The origin, if its code is valid. -/
def origin? (header : Header) : Option Origin :=
  if Origin.isValid header.originCode then Origin.ofCode? header.originCode else none

end Header

end CollectorMemory
