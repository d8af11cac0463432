import CollectorMemory.Chunk.Basic

/-!
# Ordered chunk lists

A free pool keeps its chunks in order: those of a fixed size by location, so that the first one is
taken from the lowest address, and humongous ones by size first, so that the first one that is
large enough is the best fit. Two chunks with the same key cannot both be in a list: putting one in
replaces the other.
-/

namespace CollectorMemory

namespace Chunk

/-- Chunks in the order of their locations. -/
def placeOrder (left right : Chunk) : Ordering := left.place.order right.place

/-- Chunks in the order of their sizes, then of their locations. -/
def sizeOrder (left right : Chunk) : Ordering :=
  (compare left.size right.size).then (left.placeOrder right)

/-- The order of the free chunks of a kind. -/
def freeOrder (kind : Kind) : Chunk → Chunk → Ordering :=
  if kind.isHumongous then sizeOrder else placeOrder

end Chunk

/-- Put a chunk into an ordered list, in the place of a chunk with the same key if there is one. -/
def insertOrdered (order : Chunk → Chunk → Ordering) (chunk : Chunk) : List Chunk → List Chunk
  | [] => [chunk]
  | head :: rest =>
    match order chunk head with
    | .lt => chunk :: head :: rest
    | .eq => chunk :: rest
    | .gt => head :: insertOrdered order chunk rest

/-- Take the first chunk that passes a test out of a list. -/
def takeFirst? (test : Chunk → Bool) : List Chunk → Option (Chunk × List Chunk)
  | [] => none
  | head :: rest =>
    if test head then some (head, rest)
    else (takeFirst? test rest).map fun (found, others) => (found, head :: others)

end CollectorMemory
