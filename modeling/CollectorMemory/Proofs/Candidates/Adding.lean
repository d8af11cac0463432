import CollectorMemory.Proofs.Candidates.Filling
import CollectorMemory.Proofs.Candidates.Turns

/-!
# Adding regions in parallel

Several adders fill the slots of a chooser at the same time, each with the regions of its own task and
through an updater of its own. A step of an adder claims a run of slots, fills a slot, or counts the
regions or the bytes that were added once no more are waiting; a schedule lists which adder takes the
next step. What was written to slots and what waits is always what was to be added (`Adding`), so with
one run of slots to waste for each adder nobody ever runs out of slots. In the end the slots hold all
that was added but a region whose index is the mark of an empty slot.
-/

namespace CollectorMemory

/-- What an adder does next. -/
inductive Adder.Stage where
  /-- Add the next region, or count the regions that were added if there are no more. -/
  | adding
  /-- Count the bytes of what was added. -/
  | closing
  /-- Nothing. -/
  | finished

/-- What adds the regions of a task. -/
structure Adder where
  /-- The regions that are still to be added. -/
  waiting : List Region
  /-- The means of adding them. -/
  updater : Updater
  /-- The runs of slots that were claimed, each with its first slot and the slot after its last. -/
  runs : List (Nat × Nat)
  /-- What the adder does next. -/
  stage : Adder.Stage

/-- All adders with the chooser that they share. -/
structure Crew where
  /-- The chooser that is filled. -/
  chooser : Chooser
  /-- The adders. -/
  adders : List Adder

namespace Adder

/-- An adder that has added nothing yet. -/
def ofTask (chunkSize : Nat) (task : List Region) : Adder :=
  { waiting := task, updater := Updater.ofChunkSize chunkSize, runs := [], stage := .adding }

/-- One step of an adder. -/
def step (adder : Adder) (chooser : Chooser) : Except Fault (Adder × Chooser) :=
  match adder.stage, adder.waiting with
  | .adding, [] =>
    if 0 < adder.updater.added then
      .ok ({ adder with stage := .closing }, chooser.addLength adder.updater.added)
    else .ok ({ adder with stage := .finished }, chooser)
  | .adding, region :: rest =>
    if adder.updater.isFull then do
      let (updater, chooser) ← adder.updater.claim chooser
      return ({ adder with updater, runs := (updater.next, updater.stop) :: adder.runs }, chooser)
    else do
      let (updater, chooser) ← adder.updater.place chooser region
      return ({ adder with updater, waiting := rest }, chooser)
  | .closing, _ => .ok ({ adder with stage := .finished }, chooser.addBytes adder.updater.bytes)
  | .finished, _ => .ok (adder, chooser)

/-- The number of regions of the adder that are counted in the chooser. -/
def countedRegions (adder : Adder) : Nat :=
  match adder.stage with
  | .adding => 0
  | .closing | .finished => adder.updater.added

/-- The bytes of the adder that are counted in the chooser. -/
def countedBytes (adder : Adder) : Nat :=
  match adder.stage with
  | .adding | .closing => 0
  | .finished => adder.updater.bytes

/-- The bytes of the regions that the adder added and of those that are waiting. -/
def bytes (adder : Adder) : Nat :=
  adder.updater.bytes + (adder.waiting.map Region.reclaimableBytes).sum

/-- The most steps that the adder has still to take. -/
def stepsLeft (adder : Adder) : Nat :=
  match adder.stage with
  | .adding => 2 * adder.waiting.length + if adder.updater.isFull then 3 else 2
  | .closing => 1
  | .finished => 0

end Adder

namespace Crew

/-- An adder for each task, before any of them takes a step. -/
def start (chooser : Chooser) (chunkSize : Nat) (tasks : List (List Region)) : Crew :=
  { chooser, adders := tasks.map (Adder.ofTask chunkSize) }

/-- One step of one adder. -/
def step (crew : Crew) (index : Nat) : Except Fault Crew :=
  match crew.adders[index]? with
  | none => .ok crew
  | some adder => do
    let (adder, chooser) ← adder.step crew.chooser
    return { chooser, adders := crew.adders.set index adder }

/-- The steps of a schedule. -/
def run (crew : Crew) (schedule : List Nat) : Except Fault Crew := schedule.foldlM step crew

/-- The runs of slots that were claimed. -/
def runs (crew : Crew) : List (Nat × Nat) := crew.adders.flatMap Adder.runs

/-- Whether all adders are finished. -/
def IsFinished (crew : Crew) : Prop := ∀ adder ∈ crew.adders, adder.stage = .finished

end Crew

variable {excuse : Prop} {base chooser chooser' : Chooser} {adder adder' : Adder}
  {others adders : List Adder} {waiting regions : List Region} {region : Region}
  {updater : Updater} {runs : List (Nat × Nat)} {crew : Crew} {chunkSize cursor : Nat}
  {placed : List Nat}

/-- No slot is in both runs. -/
def RunsApart (run other : Nat × Nat) : Prop := run.2 ≤ other.1 ∨ other.2 ≤ run.1

/-- An updater that claimed a run of slots can fill one. -/
theorem Updater.not_isFull_of_claim {updater' : Updater} (positive : 0 < updater.chunkSize)
    (done : updater.claim chooser = .ok (updater', chooser')) : ¬updater'.isFull := by
  unfold Updater.claim at done
  cases claimed : chooser.claimSlots updater.chunkSize with
  | error fault =>
    rw [claimed] at done
    cases done
  | ok result =>
    rw [claimed] at done
    obtain ⟨rfl, _⟩ := Prod.mk.inj (Except.ok.inj done)
    intro full
    have same : result.1 = result.1 + updater.chunkSize := beq_iff_eq.mp full
    omega

/-- Runs of slots that were claimed one after the other, up to the cursor. -/
structure Claimed (chunkSize cursor : Nat) (runs : List (Nat × Nat)) : Prop where
  /-- All runs have equally many slots. -/
  width : ∀ run ∈ runs, run.2 = run.1 + chunkSize
  /-- All runs are below the cursor. -/
  below : ∀ run ∈ runs, run.2 ≤ cursor
  /-- No slot is in two runs. -/
  disjoint : runs.Pairwise RunsApart

namespace Claimed

/-- The runs may be listed in any order. -/
theorem of_perm {other : List (Nat × Nat)} (claimed : Claimed chunkSize cursor runs)
    (perm : runs.Perm other) : Claimed chunkSize cursor other where
  width run member := claimed.width run (perm.mem_iff.mpr member)
  below run member := claimed.below run (perm.mem_iff.mpr member)
  disjoint := (perm.pairwise_iff Or.symm).mp claimed.disjoint

/-- The run after the cursor is claimed. -/
theorem cons (claimed : Claimed chunkSize cursor runs) :
    Claimed chunkSize (cursor + chunkSize) ((cursor, cursor + chunkSize) :: runs) where
  width := List.forall_mem_cons.mpr ⟨rfl, claimed.width⟩
  below := List.forall_mem_cons.mpr ⟨Nat.le_refl _, fun run member =>
    Nat.le_trans (claimed.below run member) (Nat.le_add_right _ _)⟩
  disjoint := List.pairwise_cons.mpr ⟨fun run member => Or.inr (claimed.below run member),
    claimed.disjoint⟩

end Claimed

/-- What holds of every adder. -/
structure Adder.Sound (adder : Adder) : Prop where
  /-- The regions that are waiting are old. -/
  old : ∀ region ∈ adder.waiting, region.isOld = true
  /-- Where nothing was added there are no bytes of it. -/
  bytes : adder.updater.added = 0 → adder.updater.bytes = 0
  /-- When the adder counts what it added, nothing is waiting. -/
  waiting : adder.stage ≠ .adding → adder.waiting = []

/-- Whether an index that is written to a slot is found there, as that of a region. -/
def Region.isKept (region : Region) : Bool := region.index != Slot.emptyMark

/-- A chooser that holds regions, each as often as it was added and none whose index is the mark of an
empty slot, and counts all of them and their bytes. -/
structure Chooser.HoldsExactly (chooser : Chooser) (regions : List Region) : Prop where
  /-- The indices of the regions are in the slots, but not the mark of an empty one. -/
  filled : chooser.filled.Perm ((regions.filter Region.isKept).map Region.index)
  /-- If the regions are those of the heap, they are read from the slots. -/
  read : (∀ region ∈ regions, chooser.heap[region.index]? = some region) →
    (chooser.slots.toList.filterMap chooser.regionOf).Perm (regions.filter Region.isKept)
  /-- The regions are counted. -/
  length : chooser.length = regions.length
  /-- Their bytes are counted. -/
  remaining : chooser.remainingBytes = (regions.map Region.reclaimableBytes).sum

/-- The indices that are kept of those of regions are those of the regions that are kept. -/
theorem Slot.kept_map_index :
    Slot.kept (regions.map Region.index) = (regions.filter Region.isKept).map Region.index :=
  List.filter_map

/-- Slots that hold the indices of regions of the heap hold the regions. -/
theorem Chooser.read_of_filled (filled : chooser.filled.Perm (regions.map Region.index))
    (found : ∀ region ∈ regions, chooser.heap[region.index]? = some region) :
    (chooser.slots.toList.filterMap chooser.regionOf).Perm regions := by
  have through : chooser.slots.toList.filterMap chooser.regionOf =
      chooser.filled.filterMap (chooser.heap[·]?) := by
    unfold Chooser.filled
    rw [List.filterMap_filterMap]
    rfl
  have back : (regions.map Region.index).filterMap (chooser.heap[·]?) = regions := by
    rw [List.filterMap_map]
    exact (List.filterMap_congr found).trans List.filterMap_some
  rw [through]
  exact (filled.filterMap _).trans (List.Perm.of_eq back)

/-- A chooser in which adders can add regions. -/
structure Chooser.Admits (base : Chooser) (adders : Nat) (regions : List Region)
    (chunkSize : Nat) : Prop where
  /-- Runs of slots are not empty. -/
  positive : 0 < chunkSize
  /-- There is a slot for each region, and one run of slots to waste for each adder. -/
  room : regions.length + adders * chunkSize ≤ base.slots.size
  /-- The number of slots is a count. -/
  short : base.slots.size < wordLimit
  /-- The bytes of all regions are a count. -/
  bytes : (regions.map Region.reclaimableBytes).sum < wordLimit

/-- A chooser and all adders while these add regions, with the indices that were written to slots. -/
structure Adding (base : Chooser) (chunkSize : Nat) (regions : List Region) (chooser : Chooser)
    (adders : List Adder) (placed : List Nat) : Prop where
  /-- The heap and the threshold stay. -/
  alike : base.Alike chooser
  /-- The number of slots stays. -/
  capacity : chooser.slots.size = base.slots.size
  /-- The slots are filled by the updaters of the adders. -/
  placing : Placing chunkSize chooser (adders.map Adder.updater) placed
  /-- The adders are sound. -/
  sound : ∀ adder ∈ adders, adder.Sound
  /-- The regions were written to slots or are waiting. -/
  written : (placed ++ (adders.flatMap Adder.waiting).map Region.index).Perm
    (regions.map Region.index)
  /-- The bytes of the regions are those of what was added and of what is waiting. -/
  bytes : (adders.map Adder.bytes).sum = (regions.map Region.reclaimableBytes).sum
  /-- The regions of adders that have no more to add are counted. -/
  length : chooser.length = (adders.map Adder.countedRegions).sum
  /-- The bytes of adders that are finished are counted. -/
  remaining : chooser.remainingBytes = (adders.map Adder.countedBytes).sum
  /-- The runs of slots are claimed one after the other. -/
  claimed : Claimed chunkSize chooser.cursor (adders.flatMap Adder.runs)

namespace Adding

/-- The adders may be listed in any order. -/
theorem of_perm (adding : Adding base chunkSize regions chooser adders placed)
    (perm : adders.Perm others) : Adding base chunkSize regions chooser others placed where
  alike := adding.alike
  capacity := adding.capacity
  placing := adding.placing.of_perm (perm.map _)
  sound adder member := adding.sound adder (perm.mem_iff.mpr member)
  written := (((perm.flatMap_right _).map _).append_left _).symm.trans adding.written
  bytes := by rw [← adding.bytes, (perm.map _).sum_nat]
  length := by rw [adding.length, (perm.map _).sum_nat]
  remaining := by rw [adding.remaining, (perm.map _).sum_nat]
  claimed := adding.claimed.of_perm (perm.flatMap_right _)

/-- What was written to slots and waits with one adder is not too much. -/
theorem within (adding : Adding base chunkSize regions chooser (adder :: others) placed) :
    placed.length + adder.waiting.length ≤ regions.length ∧
      adder.bytes ≤ (regions.map Region.reclaimableBytes).sum := by
  have length := adding.written.length_eq
  have bytes := adding.bytes
  rw [List.length_append, List.length_map, List.length_map, List.flatMap_cons,
    List.length_append] at length
  rw [List.map_cons, List.sum_cons] at bytes
  omega

/-- What is counted together with what an adder added that is not counted yet is not too much. -/
theorem counted_le (adding : Adding base chunkSize regions chooser (adder :: others) placed) :
    (adder.countedRegions = 0 → chooser.length + adder.updater.added ≤ regions.length) ∧
      (adder.countedBytes = 0 → chooser.remainingBytes + adder.updater.bytes ≤
        (regions.map Region.reclaimableBytes).sum) := by
  have within := adding.within.1
  have bytes := adding.bytes
  have length := adding.length
  have remaining := adding.remaining
  have added := adding.placing.added
  have lengthLe : (others.map Adder.countedRegions).sum ≤
      (others.map fun adder => adder.updater.added).sum := by
    apply List.sum_le_sum
    intro other _
    unfold Adder.countedRegions
    split <;> omega
  have remainingLe : (others.map Adder.countedBytes).sum ≤ (others.map Adder.bytes).sum := by
    apply List.sum_le_sum
    intro other _
    unfold Adder.countedBytes Adder.bytes
    split <;> omega
  rw [List.map_map, List.map_cons, List.sum_cons] at added
  rw [List.map_cons, List.sum_cons] at length remaining bytes
  simp only [Function.comp_def] at added
  have own : adder.updater.bytes ≤ adder.bytes := Nat.le_add_right _ _
  constructor <;> intro nothing <;> omega

/-- A step of one adder, with what it must keep. -/
theorem of_step {placed' : List Nat}
    (adding : Adding base chunkSize regions chooser (adder :: others) placed)
    (alike : chooser.Alike chooser')
    (capacity : chooser'.slots.size = chooser.slots.size)
    (placing : Placing chunkSize chooser' ((adder' :: others).map Adder.updater) placed')
    (sound : adder'.Sound)
    (written : (placed' ++ adder'.waiting.map Region.index).Perm
      (placed ++ adder.waiting.map Region.index))
    (bytes : adder'.bytes = adder.bytes)
    (length : chooser'.length + adder.countedRegions = chooser.length + adder'.countedRegions)
    (remaining : chooser'.remainingBytes + adder.countedBytes =
      chooser.remainingBytes + adder'.countedBytes)
    (claimed : Claimed chunkSize chooser'.cursor ((adder' :: others).flatMap Adder.runs)) :
    Adding base chunkSize regions chooser' (adder' :: others) placed' where
  alike := adding.alike.trans alike
  capacity := capacity.trans adding.capacity
  placing := placing
  sound := List.forall_mem_cons.mpr ⟨sound, fun other member =>
    adding.sound other (List.mem_cons_of_mem adder member)⟩
  written := by
    have before := adding.written
    rw [List.flatMap_cons, List.map_append, ← List.append_assoc] at before ⊢
    exact (written.append_right _).trans before
  bytes := by
    rw [← adding.bytes, List.map_cons, List.map_cons, bytes]
  length := by
    have before := adding.length
    rw [List.map_cons, List.sum_cons] at before ⊢
    omega
  remaining := by
    have before := adding.remaining
    rw [List.map_cons, List.sum_cons] at before ⊢
    omega
  claimed := claimed

/-- What a step of an adder leads to. -/
def Steps (base : Chooser) (chunkSize : Nat) (regions : List Region) (adder : Adder)
    (others : List Adder) (result : Adder × Chooser) : Prop :=
  (∃ placed, Adding base chunkSize regions result.2 (result.1 :: others) placed) ∧
    result.1.stepsLeft ≤ adder.stepsLeft - 1

/-- An adder that has no more to add counts the regions that it added. -/
theorem leave_ensures
    (adding : Adding base chunkSize regions chooser (⟨[], updater, runs, .adding⟩ :: others) placed)
    (admits : base.Admits (others.length + 1) regions chunkSize) :
    Ensures excuse (Adder.step ⟨[], updater, runs, .adding⟩ chooser)
      (Steps base chunkSize regions ⟨[], updater, runs, .adding⟩ others) := by
  have sound := adding.sound _ List.mem_cons_self
  have few : chooser.length + updater.added ≤ regions.length := adding.counted_le.1 rfl
  have room := admits.room
  have short := admits.short
  change Ensures excuse (if 0 < updater.added then _ else _) _
  split
  · have noWrap : (chooser.length + updater.added) % wordLimit = chooser.length + updater.added :=
      Nat.mod_eq_of_lt (by omega)
    refine ⟨⟨placed, adding.of_step ⟨rfl, rfl, rfl⟩ rfl (adding.placing.of_same rfl rfl)
      ⟨sound.old, sound.bytes, fun _ => rfl⟩ (List.Perm.refl _) rfl noWrap rfl adding.claimed⟩, ?_⟩
    exact Nat.le_sub_one_of_lt (Nat.lt_of_lt_of_le Nat.one_lt_two (by
      change 2 ≤ 2 * 0 + if updater.isFull then 3 else 2
      split <;> omega))
  · next nothing =>
    have isZero : updater.added = 0 := Nat.eq_zero_of_not_pos nothing
    exact ⟨⟨placed, adding.of_step (Chooser.Alike.refl chooser) rfl adding.placing
      ⟨sound.old, sound.bytes, fun _ => rfl⟩ (List.Perm.refl _) rfl (congrArg _ isZero.symm)
      (congrArg _ (sound.bytes isZero).symm) adding.claimed⟩, Nat.zero_le _⟩

/-- An adder claims a run of slots for a region. -/
theorem claim_ensures
    (adding : Adding base chunkSize regions chooser
      (⟨region :: waiting, updater, runs, .adding⟩ :: others) placed)
    (admits : base.Admits (others.length + 1) regions chunkSize) (full : updater.isFull) :
    Ensures excuse (Adder.step ⟨region :: waiting, updater, runs, .adding⟩ chooser)
      (Steps base chunkSize regions ⟨region :: waiting, updater, runs, .adding⟩ others) := by
  have sound := adding.sound _ List.mem_cons_self
  have isFull : updater.next = updater.stop := beq_iff_eq.mp full
  have positive := admits.positive
  have room : chooser.cursor + chunkSize ≤ chooser.slots.size := by
    have claimedLe := adding.placing.cursor_le isFull
    have within : placed.length + (waiting.length + 1) ≤ regions.length := adding.within.1
    have enough := admits.room
    rw [adding.capacity]
    rw [List.length_map] at claimedLe
    rw [Nat.succ_mul] at enough
    omega
  change Ensures excuse (if updater.isFull then updater.claim chooser >>= _ else _) _
  rw [if_pos full]
  apply Ensures.bind (adding.placing.claim_ensures isFull room (by
    rw [adding.capacity]
    exact admits.short))
  rintro ⟨after, _⟩ ⟨rfl, rfl, placing⟩
  refine ⟨⟨placed, adding.of_step ⟨rfl, rfl, rfl⟩ rfl placing
    ⟨sound.old, sound.bytes, sound.waiting⟩ (List.Perm.refl _) rfl rfl rfl adding.claimed.cons⟩, ?_⟩
  have notFull : chooser.cursor ≠ chooser.cursor + chunkSize := by omega
  change 2 * (waiting.length + 1) + (if (chooser.cursor == chooser.cursor + chunkSize) = true then 3
    else 2) ≤ 2 * (waiting.length + 1) + (if updater.isFull = true then 3 else 2) - 1
  rw [if_pos full, if_neg (by simpa using notFull)]
  omega

/-- An adder fills a slot. -/
theorem place_ensures
    (adding : Adding base chunkSize regions chooser
      (⟨region :: waiting, updater, runs, .adding⟩ :: others) placed)
    (admits : base.Admits (others.length + 1) regions chunkSize) (notFull : ¬updater.isFull) :
    Ensures excuse (Adder.step ⟨region :: waiting, updater, runs, .adding⟩ chooser)
      (Steps base chunkSize regions ⟨region :: waiting, updater, runs, .adding⟩ others) := by
  have sound := adding.sound _ List.mem_cons_self
  have someLeft : updater.next < updater.stop := by
    have run := (adding.placing.run updater List.mem_cons_self).1
    exact Nat.lt_of_le_of_ne run fun same => notFull (beq_iff_eq.mpr same)
  have old := sound.old region List.mem_cons_self
  have most := admits.bytes
  have within : updater.bytes + (region.reclaimableBytes +
      (waiting.map Region.reclaimableBytes).sum) ≤ _ := adding.within.2
  have short : updater.bytes + region.reclaimableBytes < wordLimit := by omega
  change Ensures excuse (if updater.isFull then _ else updater.place chooser region >>= _) _
  rw [if_neg notFull]
  apply Ensures.bind (adding.placing.place_ensures someLeft old short)
  rintro ⟨after, _⟩ ⟨⟨slots, capacity, rfl⟩, rfl, placing⟩
  refine ⟨⟨region.index :: placed, adding.of_step ⟨rfl, rfl, rfl⟩ capacity placing
    ⟨fun other member => sound.old other (List.mem_cons_of_mem region member),
      fun nothing => absurd nothing (Nat.succ_ne_zero _), fun done => absurd rfl done⟩
    List.perm_middle.symm (Nat.add_assoc _ _ _) rfl rfl adding.claimed⟩, ?_⟩
  change 2 * waiting.length + (if _ then 3 else 2) ≤
    2 * (waiting.length + 1) + (if updater.isFull = true then 3 else 2) - 1
  rw [if_neg notFull]
  split <;> omega

/-- An adder that counted its regions counts their bytes. -/
theorem close_ensures
    (adding : Adding base chunkSize regions chooser (⟨waiting, updater, runs, .closing⟩ :: others)
      placed)
    (admits : base.Admits (others.length + 1) regions chunkSize) :
    Ensures excuse (Adder.step ⟨waiting, updater, runs, .closing⟩ chooser)
      (Steps base chunkSize regions ⟨waiting, updater, runs, .closing⟩ others) := by
  have sound := adding.sound _ List.mem_cons_self
  have few : chooser.remainingBytes + updater.bytes ≤ _ := adding.counted_le.2 rfl
  have noWrap : (chooser.remainingBytes + updater.bytes) % wordLimit =
      chooser.remainingBytes + updater.bytes :=
    Nat.mod_eq_of_lt (Nat.lt_of_le_of_lt few admits.bytes)
  exact ⟨⟨placed, adding.of_step ⟨rfl, rfl, rfl⟩ rfl (adding.placing.of_same rfl rfl)
    ⟨sound.old, sound.bytes, fun _ => sound.waiting (nofun)⟩ (List.Perm.refl _) rfl rfl noWrap
    adding.claimed⟩, Nat.le_refl _⟩

/-- Every step of an adder is taken, and leaves it with fewer steps to take. -/
theorem step_ensures (adding : Adding base chunkSize regions chooser (adder :: others) placed)
    (admits : base.Admits (others.length + 1) regions chunkSize) :
    Ensures excuse (adder.step chooser) (Steps base chunkSize regions adder others) := by
  obtain ⟨waiting, updater, runs, stage⟩ := adder
  cases stage with
  | adding =>
    cases waiting with
    | nil => exact adding.leave_ensures admits
    | cons region waiting =>
      by_cases full : updater.isFull
      · exact adding.claim_ensures admits full
      · exact adding.place_ensures admits full
  | closing => exact adding.close_ensures admits
  | finished => exact ⟨⟨placed, adding⟩, Nat.zero_le _⟩

/-- Adders that took no step add their tasks to slots that are empty. -/
theorem start {tasks : List (List Region)} (empty : ∀ slot ∈ base.slots.toList, slot = none)
    (cursor : base.cursor = 0) (length : base.length = 0) (remaining : base.remainingBytes = 0)
    (old : ∀ region ∈ tasks.flatten, region.isOld = true) :
    Adding base chunkSize tasks.flatten base (tasks.map (Adder.ofTask chunkSize)) [] := by
  have isOf : ∀ adder ∈ tasks.map (Adder.ofTask chunkSize),
      ∃ task ∈ tasks, Adder.ofTask chunkSize task = adder := fun _ => List.mem_map.mp
  have waiting : (tasks.map (Adder.ofTask chunkSize)).flatMap Adder.waiting = tasks.flatten := by
    rw [List.flatMap_map]
    exact List.flatMap_id'
  have updaters : (tasks.map (Adder.ofTask chunkSize)).map Adder.updater =
      List.replicate tasks.length (Updater.ofChunkSize chunkSize) := by
    rw [List.map_map, ← List.map_const']
    rfl
  have bytes : ((tasks.map (Adder.ofTask chunkSize)).map Adder.bytes) =
      tasks.map fun task => (task.map Region.reclaimableBytes).sum := by
    rw [List.map_map]
    exact List.map_congr_left fun task _ => Nat.zero_add _
  have noRuns : (tasks.map (Adder.ofTask chunkSize)).flatMap Adder.runs = [] := by
    apply List.flatMap_eq_nil_iff.mpr
    intro adder member
    obtain ⟨task, _, rfl⟩ := isOf adder member
    rfl
  have nothingCounted : ∀ count : Adder → Nat, (∀ task, count (Adder.ofTask chunkSize task) = 0) →
      ((tasks.map (Adder.ofTask chunkSize)).map count).sum = 0 := by
    intro count zero
    apply List.sum_eq_zero
    intro value member
    obtain ⟨adder, isAdder, rfl⟩ := List.mem_map.mp member
    obtain ⟨task, _, rfl⟩ := isOf adder isAdder
    exact zero task
  exact {
    alike := Chooser.Alike.refl base
    capacity := rfl
    placing := by
      rw [updaters]
      exact Placing.start empty cursor
    sound := fun adder member => by
      obtain ⟨task, isTask, rfl⟩ := isOf adder member
      exact ⟨fun region isRegion => old region (List.mem_flatten_of_mem isTask isRegion),
        fun _ => rfl, fun done => absurd rfl done⟩
    written := by
      rw [waiting]
      exact List.Perm.refl _
    bytes := by
      rw [bytes, List.map_flatten, List.sum_flatten, List.map_map]
      rfl
    length := by rw [length, nothingCounted _ fun _ => rfl]
    remaining := by rw [remaining, nothingCounted _ fun _ => rfl]
    claimed := by
      rw [noRuns]
      exact ⟨fun _ member => absurd member List.not_mem_nil,
        fun _ member => absurd member List.not_mem_nil, List.Pairwise.nil⟩ }

/-- When all adders are finished, the slots hold the regions, and these are counted. -/
theorem finished (adding : Adding base chunkSize regions chooser adders placed)
    (finished : ∀ adder ∈ adders, adder.stage = .finished) : chooser.HoldsExactly regions := by
  have noneWaiting : ∀ adder ∈ adders, adder.waiting = [] := fun adder member =>
    (adding.sound adder member).waiting (by
      rw [finished adder member]
      nofun)
  have written := adding.written
  rw [List.flatMap_eq_nil_iff.mpr noneWaiting, List.map_nil, List.append_nil] at written
  have filled : chooser.filled.Perm ((regions.filter Region.isKept).map Region.index) := by
    rw [← Slot.kept_map_index]
    exact adding.placing.held.trans (written.filter _)
  refine ⟨filled, fun found => Chooser.read_of_filled filled fun region member =>
    found region (List.mem_of_mem_filter member), ?_, ?_⟩
  · rw [adding.length, ← List.length_map Region.index, ← written.length_eq, adding.placing.added,
      List.map_map]
    congr 1
    apply List.map_congr_left
    intro adder member
    unfold Adder.countedRegions
    rw [finished adder member]
    rfl
  · rw [adding.remaining, ← adding.bytes]
    congr 1
    apply List.map_congr_left
    intro adder member
    unfold Adder.countedBytes Adder.bytes
    rw [finished adder member, noneWaiting adder member]
    rfl

end Adding

namespace Crew

/-- A crew while it adds regions. -/
def Adds (base : Chooser) (chunkSize : Nat) (regions : List Region) (crew : Crew) : Prop :=
  ∃ placed, Adding base chunkSize regions crew.chooser crew.adders placed

/-- A step of any adder is taken. -/
theorem step_ensures {turn : Nat} (adds : crew.Adds base chunkSize regions)
    (admits : base.Admits crew.adders.length regions chunkSize) :
    Ensures excuse (crew.step turn) fun after => after.Adds base chunkSize regions ∧
      Advances Adder.stepsLeft [turn] crew.adders after.adders := by
  unfold step
  cases found : crew.adders[turn]? with
  | none => exact ⟨adds, Advances.of_none found⟩
  | some adder =>
    obtain ⟨front, back, split, replaced⟩ := exists_split found
    obtain ⟨placed, adding⟩ := adds
    rw [split] at adding
    have size : crew.adders.length = (front ++ back).length + 1 := by
      rw [split, List.perm_middle.length_eq, List.length_cons]
    rw [size] at admits
    apply Ensures.bind ((adding.of_perm List.perm_middle).step_ensures admits)
    rintro ⟨adder', chooser'⟩ ⟨⟨placed', later⟩, fewer⟩
    refine ⟨⟨placed', ?_⟩, Advances.of_step found fewer⟩
    change Adding base chunkSize regions chooser' (crew.adders.set turn adder') placed'
    rw [replaced adder']
    exact later.of_perm List.perm_middle.symm

/-- Under every schedule all steps are taken. -/
theorem run_ensures {schedule : List Nat} (adds : crew.Adds base chunkSize regions)
    (admits : base.Admits crew.adders.length regions chunkSize) :
    Ensures excuse (crew.run schedule) fun after => after.Adds base chunkSize regions ∧
      Advances Adder.stepsLeft schedule crew.adders after.adders := by
  induction schedule generalizing crew with
  | nil => exact ⟨adds, Advances.refl _⟩
  | cons turn rest ih =>
    unfold run
    rw [List.foldlM_cons]
    apply Ensures.bind (step_ensures adds admits)
    rintro middle ⟨addsMiddle, first⟩
    apply (ih addsMiddle (by rw [first.1]; exact admits)).mono
    rintro after ⟨addsAfter, later⟩
    exact ⟨addsAfter, first.cons later⟩

/-- A run begins with its first step. -/
theorem run_cons {turn : Nat} {rest : List Nat} {middle : Crew} (done : crew.step turn = .ok middle) :
    crew.run (turn :: rest) = middle.run rest := by
  unfold run
  rw [List.foldlM_cons, done]
  rfl

/-- A step of an adder is a step of the crew. -/
theorem step_of_step {index : Nat} (found : crew.adders[index]? = some adder)
    (done : adder.step crew.chooser = .ok (adder', chooser')) :
    crew.step index = .ok { chooser := chooser', adders := crew.adders.set index adder' } := by
  unfold step
  rw [found]
  dsimp only
  rw [done]
  rfl

/-- A step that fills a slot, as the updater does. -/
theorem run_place {index : Nat} {updater' : Updater}
    (found : crew.adders[index]? = some ⟨region :: waiting, updater, runs, .adding⟩)
    (notFull : ¬updater.isFull)
    (done : updater.place crew.chooser region = .ok (updater', chooser')) :
    crew.run [index] = .ok
      { chooser := chooser'
        adders := crew.adders.set index ⟨waiting, updater', runs, .adding⟩ } := by
  refine run_cons (step_of_step found ?_)
  change (if updater.isFull then _ else updater.place crew.chooser region >>= _) = _
  rw [if_neg notFull, done]
  rfl

/-- An adder that takes steps in a row adds a region as its updater does. -/
theorem exists_run_add {index : Nat} {updater' : Updater}
    (found : crew.adders[index]? = some ⟨region :: waiting, updater, runs, .adding⟩)
    (positive : 0 < updater.chunkSize)
    (done : updater.add crew.chooser region = .ok (updater', chooser')) :
    ∃ turns runs', crew.run (List.replicate turns index) = .ok
      { chooser := chooser'
        adders := crew.adders.set index ⟨waiting, updater', runs', .adding⟩ } := by
  unfold Updater.add at done
  split at done
  · next full =>
    cases claimed : updater.claim crew.chooser with
    | error fault =>
      rw [claimed] at done
      cases done
    | ok result =>
      obtain ⟨between, chooser⟩ := result
      rw [claimed] at done
      let claiming : Adder :=
        ⟨region :: waiting, between, (between.next, between.stop) :: runs, .adding⟩
      have claims : Adder.step ⟨region :: waiting, updater, runs, .adding⟩ crew.chooser =
          .ok (claiming, chooser) := by
        change (if updater.isFull then updater.claim crew.chooser >>= _ else _) = _
        rw [if_pos full, claimed]
        rfl
      let middle : Crew := ⟨chooser, crew.adders.set index claiming⟩
      have found' : middle.adders[index]? = some claiming :=
        List.getElem?_set_self (List.getElem?_eq_some_iff.mp found).1
      refine ⟨2, claiming.runs, ?_⟩
      have placed := run_place found' (Updater.not_isFull_of_claim positive claimed) done
      rw [List.set_set] at placed
      exact (run_cons (step_of_step found claims)).trans placed
  · next notFull => exact ⟨1, runs, run_place found notFull done⟩

/-- An adder that takes steps in a row counts what it added as its updater does. -/
theorem exists_run_close {index : Nat}
    (found : crew.adders[index]? = some ⟨[], updater, runs, .adding⟩)
    (done : updater.close crew.chooser = .ok chooser') :
    ∃ turns, crew.run (List.replicate turns index) = .ok
      { chooser := chooser'
        adders := crew.adders.set index ⟨[], updater, runs, .finished⟩ } := by
  unfold Updater.close at done
  split at done
  · next some_ =>
    unfold Chooser.addTotals at done
    rw [if_pos some_] at done
    obtain rfl := Except.ok.inj done
    let closing : Adder := ⟨[], updater, runs, .closing⟩
    let middle : Crew :=
      ⟨crew.chooser.addLength updater.added, crew.adders.set index closing⟩
    have counts : Adder.step ⟨[], updater, runs, .adding⟩ crew.chooser =
        .ok (closing, crew.chooser.addLength updater.added) := if_pos some_
    have found' : middle.adders[index]? = some closing :=
      List.getElem?_set_self (List.getElem?_eq_some_iff.mp found).1
    have closes : closing.step middle.chooser =
      .ok (⟨[], updater, runs, .finished⟩, middle.chooser.addBytes updater.bytes) := rfl
    have last := step_of_step found' closes
    rw [List.set_set] at last
    exact ⟨2, (run_cons (step_of_step found counts)).trans (run_cons last)⟩
  · next nothing =>
    obtain rfl := Except.ok.inj done
    exact ⟨1, run_cons (step_of_step found (if_neg nothing))⟩

/-- An adder without steps to take is finished. -/
theorem finished_of_stepsLeft (nothing : adder.stepsLeft = 0) : adder.stage = .finished := by
  obtain ⟨waiting, updater, runs, stage⟩ := adder
  cases stage with
  | adding =>
    change 2 * waiting.length + (if updater.isFull = true then 3 else 2) = 0 at nothing
    split at nothing <;> omega
  | closing => exact absurd nothing Nat.one_ne_zero
  | finished => rfl

/-- Slots for a number of regions, with one run of slots to waste for each thread, admit as many
adders. -/
theorem prepare_ensures {threads total : Nat} {tasks : List (List Region)} (positive : 0 < chunkSize)
    (short : ¬excuse → Count.nextMultiple total chunkSize + threads * chunkSize < wordLimit)
    (few : tasks.length ≤ threads) (fits : tasks.flatten.length ≤ total)
    (old : ∀ region ∈ tasks.flatten, region.isOld = true)
    (bytes : (tasks.flatten.map Region.reclaimableBytes).sum < wordLimit) :
    Ensures excuse (chooser.clear.prepare threads total chunkSize) fun base =>
      chooser.Alike base ∧ (start base chunkSize tasks).Adds base chunkSize tasks.flatten ∧
        base.Admits (start base chunkSize tasks).adders.length tasks.flatten chunkSize := by
  apply (Chooser.prepare_ensures positive short).mono
  rintro base ⟨isShort, isBase⟩
  have size : base.slots.size = Count.nextMultiple total chunkSize + threads * chunkSize := by
    rw [isBase]
    exact Array.size_replicate
  have empty : ∀ slot ∈ base.slots.toList, slot = none := by
    intro slot member
    rw [isBase] at member
    change slot ∈ (Array.replicate _ none).toList at member
    rw [Array.toList_replicate] at member
    exact List.eq_of_mem_replicate member
  have cleared : base.cursor = 0 ∧ base.length = 0 ∧ base.remainingBytes = 0 := by
    rw [isBase]
    exact ⟨rfl, rfl, rfl⟩
  have most := (Count.nextMultiple_bounds total positive).1
  have waste : tasks.length * chunkSize ≤ threads * chunkSize := Nat.mul_le_mul_right _ few
  refine ⟨?_, ⟨[], Adding.start empty cleared.1 cleared.2.1 cleared.2.2 old⟩, positive, ?_, ?_,
    bytes⟩
  · rw [isBase]
    exact ⟨rfl, rfl, rfl⟩
  · change _ + (tasks.map (Adder.ofTask chunkSize)).length * chunkSize ≤ _
    rw [List.length_map, size]
    omega
  · rw [size]
    exact isShort

/-- Slots for a number of regions, with one run of slots to waste for each thread, are enough for as
many adders, however they take turns: no step stops with a fault, no slot is claimed twice, and a
filled slot is below the cursor. When all adders are finished, which they are after enough turns, the
slots hold exactly the regions of their tasks, but none whose index is the mark of an empty slot. -/
theorem added_exactly {threads total : Nat} {tasks : List (List Region)} (positive : 0 < chunkSize)
    (short : Count.nextMultiple total chunkSize + threads * chunkSize < wordLimit)
    (few : tasks.length ≤ threads) (fits : tasks.flatten.length ≤ total)
    (old : ∀ region ∈ tasks.flatten, region.isOld = true)
    (bytes : (tasks.flatten.map Region.reclaimableBytes).sum < wordLimit) :
    ∃ prepared, chooser.clear.prepare threads total chunkSize = .ok prepared ∧
      ∀ schedule, ∃ crew, (start prepared chunkSize tasks).run schedule = .ok crew ∧
        chooser.Alike crew.chooser ∧
        (∀ run ∈ crew.runs, run.2 = run.1 + chunkSize ∧ run.2 ≤ crew.chooser.cursor) ∧
        crew.runs.Pairwise RunsApart ∧
        crew.chooser.cursor ≤ crew.chooser.capacity ∧
        (∀ position index, crew.chooser.slots[position]? = some (some index) →
          position < crew.chooser.cursor) ∧
        ((∀ index task, tasks[index]? = some task → 2 * task.length + 3 ≤ schedule.count index) →
          crew.IsFinished) ∧
        (crew.IsFinished → crew.chooser.HoldsExactly tasks.flatten) := by
  obtain ⟨prepared, made, alike, begins, admits⟩ :=
    (prepare_ensures positive (fun _ => short) few fits old bytes).exists_ok
  refine ⟨prepared, made, fun schedule => ?_⟩
  obtain ⟨crew, ran, ⟨_, adding⟩, advances⟩ := (run_ensures begins admits).exists_ok
  refine ⟨crew, ran, alike.trans adding.alike,
    fun run member => ⟨adding.claimed.width run member, adding.claimed.below run member⟩,
    adding.claimed.disjoint, adding.placing.cursor, ?_, ?_, adding.finished⟩
  · intro position index isFilled
    obtain ⟨inside, _⟩ := Array.getElem?_eq_some_iff.mp isFilled
    refine Nat.lt_of_not_le fun beyond => ?_
    cases isFilled.symm.trans (adding.placing.unclaimed position beyond inside)
  · intro enough adder member
    apply finished_of_stepsLeft
    refine advances.exhausted (fun index adder isAdder => ?_) adder member
    change (tasks.map (Adder.ofTask chunkSize))[index]? = some adder at isAdder
    rw [List.getElem?_map] at isAdder
    obtain ⟨task, isTask, rfl⟩ := Option.map_eq_some_iff.mp isAdder
    exact enough index task isTask

/-- Two adders that take turns add three regions to a chooser that held another candidate. -/
theorem added_exactly_in_turns : ∃ prepared crew,
    (Chooser.clear ⟨#[.old 0 1 30, .old 1 2 20, .old 2 3 10], #[some 1], 0, 1, 0, 50, 20, false⟩).prepare
      2 3 2 = .ok prepared ∧
    (start prepared 2 [[.old 0 1 30, .old 2 3 10], [.old 1 2 20]]).run
      [0, 1, 1, 0, 0, 1, 0, 1, 0, 1, 1, 0, 0, 1, 0, 0] = .ok crew ∧
    crew.chooser.slots.toList = [some 0, some 2, some 1, none, none, none, none, none] ∧
    crew.chooser.HoldsExactly [.old 0 1 30, .old 2 3 10, .old 1 2 20] := by
  obtain ⟨prepared, made, runs⟩ := @added_exactly
    ⟨#[.old 0 1 30, .old 1 2 20, .old 2 3 10], #[some 1], 0, 1, 0, 50, 20, false⟩ 2 2 3
    [[.old 0 1 30, .old 2 3 10], [.old 1 2 20]] (by decide) (by decide) (by decide) (by decide)
    (by decide) (by decide)
  obtain ⟨crew, ran, _, _, _, _, _, finishes, complete⟩ :=
    runs [0, 1, 1, 0, 0, 1, 0, 1, 0, 1, 1, 0, 0, 1, 0, 0]
  have finished : crew.IsFinished := finishes fun
    | 0, _, rfl => by decide
    | 1, _, rfl => by decide
  have holds := complete finished
  cases made
  cases ran
  exact ⟨_, _, rfl, rfl, rfl, holds⟩

/-- The region whose index is the mark of an empty slot. -/
def marked : Region := Region.old Slot.emptyMark 0 10

/-- A heap that has a region for every half-word. -/
def wholeHeap : Array Region := Array.ofFn fun index : Fin (2 ^ 32) => Region.old index 0 10

/-- The whole heap has the region of each index, and that region knows its index. -/
theorem wholeHeap_get {index : Nat} (inside : index < 2 ^ 32) :
    wholeHeap[index]? = some (Region.old index 0 10) ∧ (Region.old index 0 10).index = index := by
  refine ⟨?_, UInt32.toNat_ofNat_of_lt inside⟩
  unfold wholeHeap
  rw [Array.getElem?_ofFn, dif_pos inside]

/-- Each region of the whole heap knows its index. -/
theorem wholeHeap_indexed (index : Nat) (region : Region) (found : wholeHeap[index]? = some region) :
    region.index = index := by
  obtain ⟨inside, _⟩ := Array.getElem?_eq_some_iff.mp found
  unfold wholeHeap at inside
  rw [Array.size_ofFn] at inside
  obtain ⟨isOld, isIndex⟩ := wholeHeap_get inside
  rw [Option.some.inj (found.symm.trans isOld)]
  exact isIndex

/-- The marked region is in the whole heap. -/
theorem wholeHeap_marked : wholeHeap[marked.index]? = some marked := by
  have inside : Slot.emptyMark < 2 ^ 32 := by decide
  obtain ⟨isLast, isIndex⟩ := wholeHeap_get inside
  unfold marked
  rw [isIndex]
  exact isLast

/-- In a heap that has the marked region, it can be added to a new chooser. It is counted then, but no
slot is filled. -/
theorem counted_of_marked {heap : Array Region}
    (indexed : ∀ (index : Nat) (region : Region), heap[index]? = some region → region.index = index)
    (found : heap[marked.index]? = some marked) : ∃ chooser prepared crew,
    Chooser.ofHeap heap { Options.default 1 with regionBytes := 1000 } = .ok chooser ∧
    chooser.heap[marked.index]? = some marked ∧ marked.isOld = true ∧
    chooser.clear.prepare 1 1 1 = .ok prepared ∧
    (start prepared 1 [[marked]]).run [0, 0, 0, 0] = .ok crew ∧ crew.IsFinished ∧
    crew.chooser.length = 1 ∧ crew.chooser.filled = [] := by
  have made : Chooser.ofHeap heap { Options.default 1 with regionBytes := 1000 } =
      .ok ⟨heap, #[], 0, 0, 0, 850, 0, true⟩ := by
    unfold Chooser.ofHeap
    rw [require, if_pos (List.all_eq_true.mpr ?inPlace)]
    case inPlace =>
      rintro ⟨region, position⟩ member
      rw [List.mem_zipIdx_iff_getElem?, Array.getElem?_toList] at member
      exact beq_iff_eq.mpr (indexed position region member)
    rfl
  have prepared : (Chooser.clear ⟨heap, #[], 0, 0, 0, 850, 0, true⟩).prepare 1 1 1 =
      .ok ⟨heap, #[none, none], 0, 0, 0, 850, 0, true⟩ := by cbv
  have ran : (start ⟨heap, #[none, none], 0, 0, 0, 850, 0, true⟩ 1 [[marked]]).run [0, 0, 0, 0] =
      .ok ⟨⟨heap, #[none, none], 0, 1, 1, 850, 10, true⟩,
        [⟨[], ⟨1, 1, 1, 1, 10⟩, [(0, 1)], .finished⟩]⟩ := rfl
  refine ⟨_, _, _, made, found, rfl, prepared, ran, ?_, rfl, rfl⟩
  intro adder member
  rw [List.mem_singleton.mp member]

/-- The heap that has a region for every half-word loses the last of them. -/
theorem marked_not_held : ∃ chooser prepared crew,
    Chooser.ofHeap wholeHeap { Options.default 1 with regionBytes := 1000 } = .ok chooser ∧
    chooser.heap[marked.index]? = some marked ∧ marked.isOld = true ∧
    chooser.clear.prepare 1 1 1 = .ok prepared ∧
    (start prepared 1 [[marked]]).run [0, 0, 0, 0] = .ok crew ∧ crew.IsFinished ∧
    crew.chooser.length = 1 ∧ crew.chooser.filled = [] :=
  counted_of_marked wholeHeap_indexed wholeHeap_marked

end Crew

end CollectorMemory
