import CollectorMemory.Candidates.Claimer
import CollectorMemory.Candidates.Sorting
import CollectorMemory.Candidates.Updater

/-!
# Collecting candidates in parallel

A population is the state of all workers that collect the candidates of a heap, with the chooser and
the claims that they share. Workers take steps, each of which touches what is shared at most once;
a schedule lists which worker takes the next step. `Chooser.rebuildUnder` collects the candidates
under any schedule, `Chooser.rebuild` lets one worker finish after the other.
-/

namespace CollectorMemory

/-- What a worker does next. -/
inductive Stage where
  /-- Claim the next region, or count what was added when there are no more. -/
  | visiting
  /-- Claim a run of slots for a region. -/
  | claiming (region : Region)
  /-- Fill a slot with a region. -/
  | placing (region : Region)
  /-- Count the bytes of what was added. -/
  | closing
  /-- Nothing. -/
  | finished

/-- A worker that collects candidates. -/
structure Worker where
  /-- The region at which the worker began. -/
  start : Nat
  /-- The number of regions visited. -/
  visited : Nat
  /-- The means of adding candidates. -/
  updater : Updater
  /-- What the worker does next. -/
  stage : Stage

/-- All workers with what they share. -/
structure Population where
  /-- The chooser that is filled. -/
  chooser : Chooser
  /-- The regions that are claimed. -/
  claimer : Claimer
  /-- The workers. -/
  workers : Array Worker

namespace Worker

/-- A worker with no region visited. -/
def ofClaimer (claimer : Claimer) (chunkSize worker : Nat) : Except Fault Worker := do
  let start ← claimer.offset worker
  return { start, visited := 0, updater := Updater.ofChunkSize chunkSize, stage := .visiting }

variable (worker : Worker)

/-- The worker after it is done with a region. -/
def proceed : Worker := { worker with visited := worker.visited + 1, stage := .visiting }

/-- What a worker does with a region that it claimed: regions that the collector still allocates
into are considered once they are full. -/
def consider (chooser : Chooser) (region : Region) : Worker :=
  if chooser.shouldAdd region && !region.isAllocating then
    { worker with
      stage := if worker.updater.isFull then .claiming region else .placing region }
  else worker.proceed

/-- One step of a worker. -/
def step (chooser : Chooser) (claimer : Claimer) :
    Except Fault (Worker × Chooser × Claimer) := do
  match worker.stage with
  | .visiting =>
    if worker.visited < claimer.regions then
      let index := claimer.visited worker.start worker.visited
      let (isFirst, claimer) ← claimer.claim index
      if !isFirst then return (worker.proceed, chooser, claimer)
      match chooser.heap[index]? with
      | none => .error .outOfRange
      | some region => return (worker.consider chooser region, chooser, claimer)
    else if 0 < worker.updater.added then
      return ({ worker with stage := .closing }, chooser.addLength worker.updater.added, claimer)
    else return ({ worker with stage := .finished }, chooser, claimer)
  | .claiming region =>
    let (updater, chooser) ← worker.updater.claim chooser
    return ({ worker with updater, stage := .placing region }, chooser, claimer)
  | .placing region =>
    let (updater, chooser) ← worker.updater.place chooser region
    return ({ worker with updater }.proceed, chooser, claimer)
  | .closing =>
    return ({ worker with stage := .finished }, chooser.addBytes worker.updater.bytes, claimer)
  | .finished => return (worker, chooser, claimer)

end Worker

namespace Population

/-- The workers at the start, with the slots that they will fill. -/
def start (chooser : Chooser) (workers regions chunkSize : Nat) : Except Fault Population := do
  let claimer ← Claimer.ofCounts workers regions
  let team ← (List.range workers).mapM (Worker.ofClaimer claimer chunkSize)
  return { chooser, claimer, workers := team.toArray }

/-- One step of one worker. -/
def step (population : Population) (index : Nat) : Except Fault Population :=
  match population.workers[index]? with
  | none => .ok population
  | some worker => do
    let (worker, chooser, claimer) ← worker.step population.chooser population.claimer
    return { chooser, claimer, workers := population.workers.setIfInBounds index worker }

/-- The steps of a schedule. -/
def run (population : Population) (schedule : List Nat) : Except Fault Population :=
  schedule.foldlM step population

/-- Whether all workers are finished. -/
def IsFinished (population : Population) : Prop :=
  ∀ worker ∈ population.workers, worker.stage = .finished

/-- The schedule that lets one worker finish after the other: a worker takes at most three steps for
a region and two at the end. -/
def inTurn (workers regions : Nat) : List Nat :=
  (List.range workers).flatMap fun worker => List.replicate (3 * regions + 2) worker

end Population

namespace Chooser

/-- The chooser without candidates, with slots for the first regions of the heap, and the number of
slots that a worker claims at a time. -/
def makeRoom (chooser : Chooser) (workers regions : Nat) : Except Fault (Chooser × Nat) := do
  require (regions ≤ chooser.heap.size) (.candidates (.tooFewRegions chooser.heap.size))
  let chunkSize ← workChunkSize workers regions
  return (← chooser.clear.prepare workers regions chunkSize, chunkSize)

/-- Collect the candidates among the first regions of the heap into the slots with workers that take
steps under a schedule, and sort them. A worker that stops with a fault stops the whole. -/
def collectUnder (chooser : Chooser) (schedule : List Nat) (workers regions chunkSize : Nat) :
    Run Chooser := do
  let collected := do
    (← Population.start chooser workers regions chunkSize).run schedule
  match collected with
  | .error _ => Run.fail .worker
  | .ok population =>
    let sorted ← population.chooser.sort
    Run.note (.rebuilt (← sorted.remaining) regions sorted.remainingBytes)
    return sorted

/-- Replace the candidates by those among the first regions of the heap, collected by workers that
take steps under a schedule. -/
def rebuildUnder (chooser : Chooser) (schedule : List Nat) (workers regions : Nat) :
    Run Chooser := do
  let (chooser, chunkSize) ← chooser.makeRoom workers regions
  chooser.collectUnder schedule workers regions chunkSize

/-- Replace the candidates by those among the first regions of the heap. -/
def rebuild (chooser : Chooser) (workers regions : Nat) : Run Chooser := do
  let (chooser, chunkSize) ← chooser.makeRoom workers regions
  chooser.collectUnder (Population.inTurn workers regions) workers regions chunkSize

/-- Rebuilding lets one worker finish after the other. -/
theorem rebuild_eq_rebuildUnder (chooser : Chooser) (workers regions : Nat) :
    chooser.rebuild workers regions
      = chooser.rebuildUnder (Population.inTurn workers regions) workers regions := rfl

end Chooser

end CollectorMemory
