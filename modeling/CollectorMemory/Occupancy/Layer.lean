import CollectorMemory.Fault

/-!
# Packed bits

A layer is a row of bits, eight to a byte, the first bit in the lowest place. Ranges are written and
searched in three parts: single bits up to a byte boundary, whole bytes, and the single bits that
are left. An access outside of the row is a fault.
-/

namespace CollectorMemory

/-- A row of bits packed in bytes. -/
structure Layer where
  /-- The bytes, of which the last may be used in part. -/
  bytes : Array UInt8

namespace Layer

/-- The number of bytes that hold a number of bits. -/
def bytesFor (bits : Nat) : Nat := (bits + 7) / 8

/-- A row of bits that are all clear. -/
def clear (bits : Nat) : Layer := ⟨Array.replicate (bytesFor bits) 0⟩

/-- The byte that has only the bit of a position set. -/
def mask (position : Nat) : UInt8 := 1 <<< UInt8.ofNat (position % 8)

/-- The byte with all bits of one value. -/
def fullByte (value : Bool) : UInt8 := if value then 0xff else 0

/-- One byte of the row. -/
def byteAt (layer : Layer) (index : Nat) : Except Fault UInt8 :=
  if inside : index < layer.bytes.size then .ok layer.bytes[index] else .error .outOfRange

/-- The row with one byte replaced. -/
def setByte (layer : Layer) (index : Nat) (byte : UInt8) : Except Fault Layer :=
  if inside : index < layer.bytes.size then .ok ⟨layer.bytes.set index byte inside⟩
  else .error .outOfRange

/-- The bit at a position. -/
def get (layer : Layer) (position : Nat) : Except Fault Bool := do
  return (← layer.byteAt (position / 8)) &&& mask position != 0

/-- The row with the bit at one position replaced. -/
def set (layer : Layer) (position : Nat) (value : Bool) : Except Fault Layer := do
  let byte ← layer.byteAt (position / 8)
  layer.setByte (position / 8)
    (if value then byte ||| mask position else byte &&& ~~~ mask position)

/-- The row with the bits in `[start, stop)` replaced, one by one. -/
def setEach (layer : Layer) (start stop : Nat) (value : Bool) : Except Fault Layer :=
  if start < stop then do (← layer.set start value).setEach (start + 1) stop value else .ok layer
termination_by stop - start

/-- The row with the bytes in `[first, last)` replaced. -/
def setBytes (layer : Layer) (first last : Nat) (value : Bool) : Except Fault Layer :=
  if first < last then do
    (← layer.setByte first (fullByte value)).setBytes (first + 1) last value
  else .ok layer
termination_by last - first

/-- Whether a bit in `[start, stop)` is set, tried one by one. -/
def anyEach (layer : Layer) (start stop : Nat) : Except Fault Bool :=
  if start < stop then do
    if ← layer.get start then return true
    layer.anyEach (start + 1) stop
  else .ok false
termination_by stop - start

/-- Whether a byte in `[first, last)` has a bit set. -/
def anyByte (layer : Layer) (first last : Nat) : Except Fault Bool :=
  if first < last then do
    if (← layer.byteAt first) != 0 then return true
    layer.anyByte (first + 1) last
  else .ok false
termination_by last - first

/-- Whether all bits in `[start, stop)` are set. -/
def allEach (layer : Layer) (start stop : Nat) : Except Fault Bool :=
  if start < stop then do
    if ← layer.get start then layer.allEach (start + 1) stop else return false
  else .ok true
termination_by stop - start

/-- The end of the single bits in front of the whole bytes of `[start, stop)`. -/
def wholeFrom (start stop : Nat) : Nat := min stop ((start + 7) / 8 * 8)

/-- The end of the whole bytes of `[start, stop)`. -/
def wholeTo (start stop : Nat) : Nat :=
  wholeFrom start stop + (stop - wholeFrom start stop) / 8 * 8

/-- The row with the bits in `[start, stop)` replaced. -/
def setRange (layer : Layer) (start stop : Nat) (value : Bool) : Except Fault Layer := do
  let layer ← layer.setEach start (wholeFrom start stop) value
  let layer ← layer.setBytes (wholeFrom start stop / 8) (wholeTo start stop / 8) value
  layer.setEach (wholeTo start stop) stop value

/-- Whether a bit in `[start, stop)` is set. -/
def anySet (layer : Layer) (start stop : Nat) : Except Fault Bool := do
  if ← layer.anyEach start (wholeFrom start stop) then return true
  if ← layer.anyByte (wholeFrom start stop / 8) (wholeTo start stop / 8) then return true
  layer.anyEach (wholeTo start stop) stop

end Layer

end CollectorMemory
