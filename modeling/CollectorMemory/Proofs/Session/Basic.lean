import CollectorMemory.Allocator.Basic
import CollectorMemory.Proofs.Chunk.Handle

/-!
# Sessions with an allocator

A session is an allocator with the chunks that its users hold. For each of these it records which
ranges were handed out from it and which words were last written through it, both since the chunk was
allocated. Users perform operations in any order: they allocate a chunk, put back one that they hold,
have words of it handed out, write and read in its allocated part, purge a space, and check the
allocator. A run is a list of operations, and it stops at the first fault.
-/

namespace CollectorMemory

/-- A chunk that a user holds. -/
structure Holding where
  /-- The handle of the chunk. -/
  chunk : Chunk
  /-- The ranges handed out since the chunk was allocated, by offset and length, last range first. -/
  granted : List (Nat × Nat)
  /-- The words last written through the chunk since it was allocated, by offset. -/
  written : Nat → Option UInt64

namespace Holding

/-- A chunk that was just allocated. -/
def fresh (chunk : Chunk) : Holding := ⟨chunk, [], fun _ => none⟩

/-- The holding after a range was handed out. -/
def grant (holding : Holding) (chunk : Chunk) (offset length : Nat) : Holding :=
  { holding with chunk, granted := (offset, length) :: holding.granted }

/-- The holding after words were written through it. -/
def store (holding : Holding) (offset : Nat) (data : List UInt64) : Holding :=
  { holding with
    written := fun other =>
      if offset ≤ other ∧ other < offset + data.length then data[other - offset]?
      else holding.written other }

end Holding

/-- An allocator and the chunks that its users hold. -/
structure Session where
  /-- The allocator. -/
  allocator : Allocator
  /-- The chunks that are held, oldest first. -/
  held : List Holding

/-- What users do. Chunks are named by their position among those that are held; nothing is done where
there is none. -/
inductive Operation where
  /-- Allocate a chunk. -/
  | allocate (space : Space) (size : Nat)
  /-- Put a chunk back. -/
  | putBack (index : Nat)
  /-- Have words of a chunk handed out. -/
  | grant (index words : Nat)
  /-- Write words through a chunk. -/
  | write (index : Nat) (place : Location) (data : List UInt64)
  /-- Read words through a chunk. -/
  | read (index : Nat) (place : Location) (length : Nat)
  /-- Give up the unused nodes of a space. -/
  | purge (space : Space)
  /-- Check the allocator. -/
  | audit

namespace Session

/-- The session of a new allocator. -/
def ofOptions (options : Options) : Except Fault Session := do
  return { allocator := ← (Allocator.ofOptions options).outcome, held := [] }

variable (session : Session)

/-- The chunks that are held. -/
def chunks : List Chunk := session.held.map Holding.chunk

/-- Do something with a chunk that is held. -/
def withHolding (index : Nat) (action : Holding → Except Fault Session) : Except Fault Session :=
  match session.held[index]? with
  | none => .ok session
  | some holding => action holding

/-- Perform one operation. -/
def perform : Operation → Except Fault Session
  | .allocate space size => do
    let (result, allocator) ← (session.allocator.allocate space size).outcome
    match result with
    | .ok chunk => return { allocator, held := session.held ++ [Holding.fresh chunk] }
    | .error _ => return { session with allocator }
  | .putBack index => session.withHolding index fun holding => do
    let allocator ← (session.allocator.putBack holding.chunk).outcome
    return { allocator, held := session.held.eraseIdx index }
  | .grant index words => session.withHolding index fun holding => do
    match ← holding.chunk.allocate words with
    | none => return session
    | some (place, chunk) =>
      return { session with held := session.held.set index (holding.grant chunk place.offset words) }
  | .write index place data => session.withHolding index fun holding => do
    let allocator ← session.allocator.writeWords holding.chunk place data
    return { allocator, held := session.held.set index (holding.store place.offset data) }
  | .read index place length => session.withHolding index fun holding => do
    let _ ← session.allocator.readWords holding.chunk place length
    return session
  | .purge space => do
    let (_, allocator) ← (session.allocator.purge space).outcome
    return { session with allocator }
  | .audit => do
    session.allocator.audit
    return session

/-- Perform operations one after the other. -/
def run (operations : List Operation) : Except Fault Session := operations.foldlM perform session

end Session

namespace Operation

/-- The number of allocations that an operation makes. -/
def allocations : Operation → Nat
  | allocate _ _ => 1
  | _ => 0

/-- An operation does not ask for a chunk of a bound or more. -/
def RequestsBelow (bound : Nat) : Operation → Prop
  | allocate _ size => size < bound
  | _ => True

/-- The correct use of an operation: chunks have valid sizes, and words are read and written in the
allocated part of the chunk. -/
def Allowed (session : Session) : Operation → Prop
  | allocate space size => (session.allocator.sizes space).isChunkSize size
  | write index place data => ∀ holding, session.held[index]? = some holding →
      holding.chunk.Allots place data.length
  | read index place length => ∀ holding, session.held[index]? = some holding →
      holding.chunk.Allots place length
  | _ => True

/-- Whether an operation is allowed can be decided. -/
instance decidableAllowed (session : Session) : ∀ operation : Operation,
    Decidable (operation.Allowed session)
  | allocate _ _ => inferInstanceAs (Decidable (_ = true))
  | write index _ _ => Option.decidableForallMem session.held[index]?
  | read index _ _ => Option.decidableForallMem session.held[index]?
  | putBack _ | grant _ _ | purge _ | audit => .isTrue trivial

/-- Requests below a bound are below a larger one. -/
theorem RequestsBelow.mono {operation : Operation} {bound larger : Nat}
    (below : operation.RequestsBelow bound) (le : bound ≤ larger) :
    operation.RequestsBelow larger := by
  cases operation with
  | allocate space size => exact Nat.lt_of_lt_of_le below le
  | _ => trivial

end Operation

/-- What yields a value ends with it. -/
theorem Session.eq_ok_of_toOption {ε α : Type} {result : Except ε α} {value : α}
    (yields : result.toOption = some value) : result = .ok value := by
  cases result with
  | error _ => cases yields
  | ok _ => rw [Option.some.inj yields]

/-- Where two steps in sequence can be evaluated, the first of them has a result. -/
theorem exists_first_of_evaluated {α β : Type} {first : Except Fault α}
    {next : α → Except Fault β} {value : β} (evaluated : (first >>= next).toOption = some value) :
    ∃ middle, first = .ok middle ∧ (next middle).toOption = some value := by
  cases first with
  | error fault => cases evaluated
  | ok middle => exact ⟨middle, rfl, evaluated⟩

/-- A run whose end can be evaluated starts from a session and reaches one. -/
theorem Session.exists_reached {α : Type} {options : Options}
    {runs : Session → Except Fault Session} {view : Session → α} {value : α}
    (evaluated : (Session.ofOptions options >>= runs).toOption.map view = some value) :
    ∃ start reached, Session.ofOptions options = .ok start ∧ runs start = .ok reached ∧
      view reached = value := by
  cases made : Session.ofOptions options with
  | error fault =>
    rw [made] at evaluated
    cases evaluated
  | ok start =>
    rw [made] at evaluated
    change (runs start).toOption.map view = some value at evaluated
    cases done : runs start with
    | error fault =>
      rw [done] at evaluated
      cases evaluated
    | ok reached =>
      rw [done] at evaluated
      exact ⟨start, reached, rfl, done, Option.some.inj evaluated⟩

/-- Options with the smallest chunks that hold more than a header, in nodes of two medium chunks. -/
def Options.smallest : Options :=
  { Options.default 1 with
    specializedChunkWords := 3
    smallChunkWords := 6
    mediumChunkWords := 12
    classSpecializedChunkWords := 3
    classSmallChunkWords := 6
    classMediumChunkWords := 12
    nodeWords := 24
    maxWords := 48
    classSpaceWords := 24
    commitGranuleWords := 12 }

/-- A short run with chunks of three sizes. The first node is retired for the second chunk, the third
chunk is taken from the pool, words of the second one are handed out and written, and the first one is
merged with its free neighbour when it is put back. -/
def Session.sample : List Operation :=
  [.allocate .nonClass 3, .allocate .nonClass 12, .allocate .nonClass 6, .grant 1 4,
    .write 1 ⟨⟨.nonClass, 1⟩, 2⟩ [7, 8, 9], .putBack 0, .purge .nonClass, .audit]

/-- The short run asks for small chunks. -/
theorem Session.sample_requestsBelow : ∀ operation ∈ sample, operation.RequestsBelow (2 ^ 55) := by
  simp [sample, Operation.RequestsBelow]

end CollectorMemory
