/-!
# Kinds and origins of chunks

A chunk is of one of three fixed sizes, which differ between the spaces, or humongous: larger than
all of them. Headers hold kinds and origins as small codes.
-/

namespace CollectorMemory

/-- The size classes of chunks, smallest first. -/
inductive Kind where
  | specialized
  | small
  | medium
  | humongous
deriving DecidableEq

namespace Kind

/-- All kinds, smallest first. -/
def all : List Kind := [specialized, small, medium, humongous]

/-- The kinds of fixed size, smallest first. -/
def fixed : List Kind := [specialized, small, medium]

/-- The number of kinds of fixed size; the free pool keeps one list for each. -/
def fixedCount : Nat := fixed.length

/-- The code of the kind in a header. -/
def code : Kind → UInt8
  | specialized => 0
  | small => 1
  | medium => 2
  | humongous => 3

/-- The kind with a code, if there is one. -/
def ofCode? (code : UInt8) : Option Kind := all.find? fun kind => kind.code == code

/-- The name of the kind. -/
def name : Kind → String
  | specialized => "specialized"
  | small => "small"
  | medium => "medium"
  | humongous => "humongous"

/-- The next larger kind. -/
def next? : Kind → Option Kind
  | specialized => some small
  | small => some medium
  | medium => some humongous
  | humongous => none

/-- The next smaller kind. -/
def prev? : Kind → Option Kind
  | specialized => none
  | small => some specialized
  | medium => some small
  | humongous => some medium

/-- The smaller kinds, largest first. -/
def below : Kind → List Kind
  | specialized => []
  | small => [specialized]
  | medium => [small, specialized]
  | humongous => [medium, small, specialized]

/-- The larger kinds of fixed size, smallest first. -/
def above : Kind → List Kind
  | specialized => [small, medium]
  | small => [medium]
  | medium | humongous => []

/-- Kinds are ordered by size. -/
def order (left right : Kind) : Ordering := compare left.code.toNat right.code.toNat

/-- Whether the kind has no fixed size. -/
def isHumongous (kind : Kind) : Bool := kind == humongous

theorem ofCode?_code (kind : Kind) : ofCode? kind.code = some kind := by
  cases kind <;> rfl

theorem code_lt (kind : Kind) : kind.code < 8 := by
  cases kind <;> decide

end Kind

/-- How a chunk came about. -/
inductive Origin where
  | normal
  | virtualSpace
  | leftover
  | pad
  | merge
  | split
deriving DecidableEq

namespace Origin

/-- All origins, in the order of their codes. -/
def all : List Origin := [normal, virtualSpace, leftover, pad, merge, split]

/-- The code of the origin in a header. -/
def code : Origin → UInt8
  | normal => 1
  | virtualSpace => 2
  | leftover => 3
  | pad => 4
  | merge => 5
  | split => 6

/-- The least code of an origin. -/
def minimum : UInt8 := normal.code

/-- The greatest code of an origin. -/
def maximum : UInt8 := split.code

/-- Whether a code is the code of an origin. -/
def isValid (code : UInt8) : Bool := minimum ≤ code && code ≤ maximum

/-- The origin with a code, if there is one. -/
def ofCode? (code : UInt8) : Option Origin := all.find? fun origin => origin.code == code

/-- The name of the origin. -/
def name : Origin → String
  | normal => "normal"
  | virtualSpace => "virtualspace"
  | leftover => "leftover"
  | pad => "pad"
  | merge => "merge"
  | split => "split"

theorem ofCode?_code (origin : Origin) : ofCode? origin.code = some origin := by
  cases origin <;> rfl

theorem code_lt (origin : Origin) : origin.code < 8 := by
  cases origin <;> decide

end Origin

end CollectorMemory
