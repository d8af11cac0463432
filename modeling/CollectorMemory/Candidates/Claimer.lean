import CollectorMemory.Count

/-!
# Claiming regions

Workers that visit a heap in parallel claim each region before they process it. Every worker visits
all regions, beginning at an offset of its own and going round, and processes those that no other
worker claimed before.
-/

namespace CollectorMemory

/-- Which regions are claimed. -/
structure Claimer where
  /-- The number of workers. -/
  workers : Nat
  /-- For each region whether it is claimed. -/
  claimed : Array Bool

namespace Claimer

/-- A claimer for a number of workers and regions, with no region claimed. -/
def ofCounts (workers regions : Nat) : Except Fault Claimer := do
  require (0 < workers) (.candidates .noClaimWorkers)
  return { workers, claimed := Array.replicate regions false }

variable (claimer : Claimer)

/-- The number of regions. -/
def regions : Nat := claimer.claimed.size

/-- The region at which a worker begins. -/
def offset (worker : Nat) : Except Fault Nat := do
  require (worker < claimer.workers) (.candidates (.unknownWorker worker))
  return (← Count.mul claimer.regions worker) / claimer.workers

/-- Whether a region is claimed. -/
def isClaimed (region : Nat) : Except Fault Bool :=
  if inside : region < claimer.claimed.size then .ok claimer.claimed[region]
  else .error .outOfRange

/-- Claim a region; the first result is whether it was not claimed before. -/
def claim (region : Nat) : Except Fault (Bool × Claimer) :=
  if inside : region < claimer.claimed.size then
    .ok (!claimer.claimed[region],
      { claimer with claimed := claimer.claimed.set region true inside })
  else .error .outOfRange

/-- The region that is visited after a number of others, beginning at an offset. -/
def visited (start count : Nat) : Nat := (start + count) % claimer.regions

/-- Visit the regions that are left, `count` of them, and process those that can be claimed until
the process answers that it wants no more. -/
def visitFrom {σ : Type} (process : σ → Nat → σ × Bool) (start : Nat) (claimer : Claimer)
    (state : σ) : Nat → Except Fault (Claimer × σ)
  | 0 => .ok (claimer, state)
  | left + 1 => do
    let region := claimer.visited start (claimer.regions - (left + 1))
    let (isFirst, claimer) ← claimer.claim region
    if isFirst then
      let (state, isDone) := process state region
      if isDone then return (claimer, state)
      visitFrom process start claimer state left
    else visitFrom process start claimer state left

/-- Visit all regions in the order of a worker and process those that can be claimed until the
process answers that it wants no more. -/
def visit {σ : Type} (process : σ → Nat → σ × Bool) (worker : Nat) (state : σ) :
    Except Fault (Claimer × σ) := do
  let start ← claimer.offset worker
  visitFrom process start claimer state claimer.regions

end Claimer

end CollectorMemory
