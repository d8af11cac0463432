/-!
# Units of size

Memory is counted in words of eight bytes, and every count fits one machine word. Amounts are
shown to people in the largest binary unit that leaves a whole number above zero.
-/

namespace CollectorMemory

/-- The number of values of a machine word; every count is below it. -/
def wordLimit : Nat := 1 <<< 64

namespace Units

/-- Binary logarithm of the number of bytes in a byte. -/
def logBytesInByte : Nat := 0

/-- The number of bytes in a byte. -/
def bytesInByte : Nat := 1 <<< logBytesInByte

/-- Binary logarithm of the number of bits in a byte. -/
def logBitsInByte : Nat := 3

/-- The number of bits in a byte. -/
def bitsInByte : Nat := 1 <<< logBitsInByte

/-- Binary logarithm of the number of bytes in a kilobyte. -/
def logBytesInKilobyte : Nat := 10

/-- The number of bytes in a kilobyte. -/
def bytesInKilobyte : Nat := 1 <<< logBytesInKilobyte

/-- Binary logarithm of the number of bytes in a megabyte. -/
def logBytesInMegabyte : Nat := 20

/-- The number of bytes in a megabyte. -/
def bytesInMegabyte : Nat := 1 <<< logBytesInMegabyte

/-- Binary logarithm of the number of bytes in an address. -/
def logBytesInAddress : Nat := 3

/-- The number of bytes in an address. -/
def bytesInAddress : Nat := 1 <<< logBytesInAddress

/-- Binary logarithm of the number of bytes in a word; a word holds one address. -/
def logBytesInWord : Nat := logBytesInAddress

/-- The number of bytes in a word. -/
def bytesInWord : Nat := 1 <<< logBytesInWord

/-- Binary logarithm of the number of bits in a word. -/
def logBitsInWord : Nat := logBitsInByte + logBytesInWord

/-- The number of bits in a word. -/
def bitsInWord : Nat := 1 <<< logBitsInWord

/-- The number of bytes in a number of words, less what does not fit a machine word. -/
def bytesOfWords (words : Nat) : Nat := words * bytesInWord % wordLimit

/-- The number of whole words in a number of bytes. -/
def wordsOfBytes (bytes : Nat) : Nat := bytes / bytesInWord

/-- An amount in the first of the given units that it stays below 1024 of, rounded down; each
unit is 1024 of the one before it. -/
def textIn (amount : Nat) : List String → String
  | [] => ""
  | [unit] => s!"{amount}{unit}"
  | unit :: larger =>
    if amount / 1024 = 0 then s!"{amount}{unit}" else textIn (amount / 1024) larger

/-- The names of the units, from the byte up. -/
def names : List String := ["B", "KiB", "MiB", "GiB", "TiB", "PiB"]

/-- A number of bytes in the largest unit that leaves at least one. -/
def bytesText (bytes : Nat) : String := textIn bytes names

end Units

end CollectorMemory
