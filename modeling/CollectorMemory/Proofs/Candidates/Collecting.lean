import CollectorMemory.Candidates.Population
import CollectorMemory.Proofs.Candidates.Claiming
import CollectorMemory.Proofs.Candidates.Filling

/-!
# Collecting candidates in parallel

What holds while workers collect the candidates of a heap, whichever of them takes the next step
(`Collecting`). The regions that are claimed and selected are those that were written to a slot and
those that some worker is about to put into one, each of them once. What workers added is counted in
the chooser once they are done. There is one lemma for each stage of a worker, and every step of a
worker that is not finished leaves it with fewer steps to take.
-/

namespace CollectorMemory

variable {excuse : Prop} {base chooser : Chooser} {claimer claimer' : Claimer} {updater : Updater}
  {worker worker' : Worker} {workers others : List Worker} {region : Region}
  {regions chunkSize start visited index : Nat} {placed placed' : List Nat}

namespace Worker

/-- The region that the worker is about to put into a slot. -/
def pending (worker : Worker) : Option Nat :=
  match worker.stage with
  | .claiming region | .placing region => some region.index
  | .visiting | .closing | .finished => none

/-- The number of candidates of the worker that are counted in the chooser. -/
def countedRegions (worker : Worker) : Nat :=
  match worker.stage with
  | .closing | .finished => worker.updater.added
  | .visiting | .claiming _ | .placing _ => 0

/-- The bytes of the worker that are counted in the chooser. -/
def countedBytes (worker : Worker) : Nat :=
  match worker.stage with
  | .finished => worker.updater.bytes
  | .visiting | .claiming _ | .placing _ | .closing => 0

/-- The most steps that the worker has still to take. -/
def stepsLeft (regions : Nat) (worker : Worker) : Nat :=
  3 * (regions - worker.visited) +
    match worker.stage with
    | .visiting => 2
    | .claiming _ | .closing => 1
    | .placing _ | .finished => 0

/-- A worker is busy with a region that it claimed and that is selected. -/
structure BusyWith (base : Chooser) (claimer : Claimer) (worker : Worker) (region : Region) :
    Prop where
  /-- Not all regions were visited. -/
  unvisited : worker.visited < claimer.regions
  /-- The region that is visited is claimed. -/
  claimed : claimer.Holds (claimer.visited worker.start worker.visited)
  /-- The region is in the heap. -/
  found : base.heap[region.index]? = some region
  /-- The region is selected. -/
  selected : base.selects region.index = true

/-- A worker is at a stage that it can be at. -/
def StageSound (base : Chooser) (claimer : Claimer) (worker : Worker) : Prop :=
  match worker.stage with
  | .visiting => True
  | .claiming region =>
    worker.BusyWith base claimer region ∧ worker.updater.next = worker.updater.stop
  | .placing region =>
    worker.BusyWith base claimer region ∧ worker.updater.next < worker.updater.stop
  | .closing | .finished => worker.visited = claimer.regions

/-- What holds of every worker. -/
structure Sound (base : Chooser) (claimer : Claimer) (worker : Worker) : Prop where
  /-- No more regions are visited than there are. -/
  visited_le : worker.visited ≤ claimer.regions
  /-- Regions that were visited are claimed. -/
  claimed : ∀ count < worker.visited, claimer.Holds (claimer.visited worker.start count)
  /-- Where nothing was added there are no bytes of it. -/
  bytes : worker.updater.added = 0 → worker.updater.bytes = 0
  /-- The worker is at a stage that it can be at. -/
  stage : worker.StageSound base claimer

/-- More claims keep a worker sound. -/
theorem Sound.mono (sound : worker.Sound base claimer) (claims : claimer.Claims index claimer') :
    worker.Sound base claimer' := by
  have visitedEq := Claimer.visited_eq claims.regions
  have busy : ∀ region, worker.BusyWith base claimer region →
      worker.BusyWith base claimer' region := by
    rintro region ⟨unvisited, claimed, found, selected⟩
    refine ⟨by rw [claims.regions]; exact unvisited, ?_, found, selected⟩
    rw [visitedEq]
    exact claims.grows claimed
  refine ⟨by rw [claims.regions]; exact sound.visited_le, ?_, sound.bytes, ?_⟩
  · intro count before
    rw [visitedEq]
    exact claims.grows (sound.claimed count before)
  · have stage := sound.stage
    unfold StageSound at stage ⊢
    cases isStage : worker.stage with
    | visiting => trivial
    | claiming region =>
      simp only [isStage] at stage ⊢
      exact ⟨busy region stage.1, stage.2⟩
    | placing region =>
      simp only [isStage] at stage ⊢
      exact ⟨busy region stage.1, stage.2⟩
    | closing | finished =>
      simp only [isStage] at stage ⊢
      rw [claims.regions]
      exact stage

/-- A worker is sound after it is done with a region that is claimed. -/
theorem Sound.proceed (sound : worker.Sound base claimer)
    (unvisited : worker.visited < claimer.regions)
    (claimed : claimer.Holds (claimer.visited worker.start worker.visited)) :
    worker.proceed.Sound base claimer where
  visited_le := unvisited
  claimed count before := by
    rcases Nat.lt_succ_iff_lt_or_eq.mp before with earlier | rfl
    · exact sound.claimed count earlier
    · exact claimed
  bytes := sound.bytes
  stage := trivial

end Worker

/-- A chooser in which workers can collect the candidates among the first regions. -/
structure Chooser.Ready (base : Chooser) (workers regions chunkSize : Nat) : Prop where
  /-- Each region knows its index. -/
  indexed : base.Indexed
  /-- There are as many regions. -/
  regions_le : regions ≤ base.heap.size
  /-- Runs of slots are not empty. -/
  positive : 0 < chunkSize
  /-- There is a slot for each region, and one run of slots to waste for each worker. -/
  room : regions + workers * chunkSize ≤ base.slots.size
  /-- The number of slots is a count. -/
  short : base.slots.size < wordLimit
  /-- The bytes of all candidates are a count. -/
  bytes : base.bytesOf (base.selection regions) < wordLimit

/-- A chooser, the claims, and all workers while these collect candidates, with the indices that were
written to slots. -/
structure Collecting (base : Chooser) (regions chunkSize : Nat) (chooser : Chooser)
    (claimer : Claimer) (workers : List Worker) (placed : List Nat) : Prop where
  /-- The heap and the threshold stay. -/
  alike : base.Alike chooser
  /-- No candidate is taken. -/
  front : chooser.front = base.front
  /-- The number of slots stays. -/
  capacity : chooser.slots.size = base.slots.size
  /-- The number of regions stays. -/
  claims : claimer.regions = regions
  /-- The slots are filled by the updaters of the workers. -/
  filling : Filling chunkSize chooser (workers.map Worker.updater) placed
  /-- The workers are sound. -/
  sound : ∀ worker ∈ workers, worker.Sound base claimer
  /-- No region is in two places. -/
  nodup : (placed ++ workers.filterMap Worker.pending).Nodup
  /-- The regions that are claimed and selected were put into slots or are about to be. -/
  exactly : ∀ index, index ∈ placed ++ workers.filterMap Worker.pending ↔
    claimer.Holds index ∧ base.selects index = true
  /-- The candidates of workers that are done are counted. -/
  length : chooser.length = (workers.map Worker.countedRegions).sum
  /-- The bytes of workers that are done are counted. -/
  bytes : chooser.remainingBytes = (workers.map Worker.countedBytes).sum

namespace Collecting

/-- The workers may be listed in any order. -/
theorem of_perm (collecting : Collecting base regions chunkSize chooser claimer workers placed)
    (perm : workers.Perm others) :
    Collecting base regions chunkSize chooser claimer others placed where
  alike := collecting.alike
  front := collecting.front
  capacity := collecting.capacity
  claims := collecting.claims
  filling := collecting.filling.of_perm (perm.map _)
  sound worker member := collecting.sound worker (perm.mem_iff.mpr member)
  nodup := ((perm.filterMap _).append_left _).nodup_iff.mp collecting.nodup
  exactly index := by
    rw [← collecting.exactly index]
    exact ((perm.filterMap _).append_left _).mem_iff.symm
  length := by rw [collecting.length, (perm.map _).sum_nat]
  bytes := by rw [collecting.bytes, (perm.map _).sum_nat]

/-- What was put into slots and is about to be is selected among the first regions. -/
theorem selected (collecting : Collecting base regions chunkSize chooser claimer workers placed)
    (member : index ∈ placed ++ workers.filterMap Worker.pending) :
    index < regions ∧ base.selects index = true := by
  obtain ⟨holds, isSelected⟩ := (collecting.exactly index).mp member
  obtain ⟨inside, _⟩ := Array.getElem?_eq_some_iff.mp holds
  rw [← collecting.claims]
  exact ⟨inside, isSelected⟩

/-- What was put into slots and is about to be is not too much. -/
theorem within (collecting : Collecting base regions chunkSize chooser claimer workers placed) :
    placed.length + (workers.filterMap Worker.pending).length ≤ regions ∧
      base.bytesOf placed + base.bytesOf (workers.filterMap Worker.pending) ≤
        base.bytesOf (base.selection regions) := by
  have bounds := Chooser.within_selection collecting.nodup fun index member =>
    collecting.selected member
  rw [List.length_append, Chooser.bytesOf_append] at bounds
  exact bounds

/-- There is room for a region that is about to be put into a slot. -/
theorem within_pending
    (collecting : Collecting base regions chunkSize chooser claimer (worker :: others) placed)
    (isPending : worker.pending = some index) :
    placed.length + 1 ≤ regions ∧
      base.bytesOf placed + base.bytesAt index ≤ base.bytesOf (base.selection regions) := by
  have within := collecting.within
  rw [List.filterMap_cons_some isPending, List.length_cons, Chooser.bytesOf_cons] at within
  omega

/-- What is counted together with what a worker added that is not counted yet is not too much. -/
theorem counted_le
    (collecting : Collecting base regions chunkSize chooser claimer (worker :: others) placed) :
    (worker.countedRegions = 0 → chooser.length + worker.updater.added ≤ regions) ∧
      (worker.countedBytes = 0 → chooser.remainingBytes + worker.updater.bytes ≤
        base.bytesOf (base.selection regions)) := by
  have within := collecting.within
  have length := collecting.length
  have bytes := collecting.bytes
  have added := collecting.filling.added
  have allBytes := collecting.filling.bytes
  have lengthLe : (others.map Worker.countedRegions).sum ≤
      (others.map fun worker => worker.updater.added).sum := by
    apply List.sum_le_sum
    intro other _
    unfold Worker.countedRegions
    split <;> omega
  have bytesLe : (others.map Worker.countedBytes).sum ≤
      (others.map fun worker => worker.updater.bytes).sum := by
    apply List.sum_le_sum
    intro other _
    unfold Worker.countedBytes
    split <;> omega
  rw [List.map_map, List.map_cons, List.sum_cons] at added allBytes
  rw [List.map_cons, List.sum_cons] at length bytes
  rw [collecting.alike.bytesOf] at allBytes
  simp only [Function.comp_def] at added allBytes
  constructor <;> intro nothing <;> omega

/-- A step of one worker, with what it must keep. -/
theorem of_step
    (collecting : Collecting base regions chunkSize chooser claimer (worker :: others) placed)
    (alike : chooser.Alike chooser') (front : chooser'.front = chooser.front)
    (capacity : chooser'.slots.size = chooser.slots.size) (claims : claimer'.regions = regions)
    (filling : Filling chunkSize chooser' ((worker' :: others).map Worker.updater) placed')
    (sound : worker'.Sound base claimer') (othersSound : ∀ other ∈ others, other.Sound base claimer')
    (nodup : (placed' ++ (worker' :: others).filterMap Worker.pending).Nodup)
    (exactly : ∀ index, index ∈ placed' ++ (worker' :: others).filterMap Worker.pending ↔
      claimer'.Holds index ∧ base.selects index = true)
    (length : chooser'.length + worker.countedRegions = chooser.length + worker'.countedRegions)
    (bytes : chooser'.remainingBytes + worker.countedBytes =
      chooser.remainingBytes + worker'.countedBytes) :
    Collecting base regions chunkSize chooser' claimer' (worker' :: others) placed' where
  alike := collecting.alike.trans alike
  front := front.trans collecting.front
  capacity := capacity.trans collecting.capacity
  claims := claims
  filling := filling
  sound := List.forall_mem_cons.mpr ⟨sound, othersSound⟩
  nodup := nodup
  exactly := exactly
  length := by
    have before := collecting.length
    rw [List.map_cons, List.sum_cons] at before ⊢
    omega
  bytes := by
    have before := collecting.bytes
    rw [List.map_cons, List.sum_cons] at before ⊢
    omega

/-- What a step of a worker leads to. -/
def Steps (base : Chooser) (regions chunkSize : Nat) (worker : Worker) (others : List Worker)
    (result : Worker × Chooser × Claimer) : Prop :=
  (∃ placed, Collecting base regions chunkSize result.2.1 result.2.2 (result.1 :: others) placed) ∧
    result.1.stepsLeft regions ≤ worker.stepsLeft regions - 1

section Visiting

variable (collecting : Collecting base regions chunkSize chooser claimer
    (⟨start, visited, updater, .visiting⟩ :: others) placed)
  (unvisited : visited < claimer.regions)
  (claims : claimer.Claims (claimer.visited start visited) claimer')

include collecting unvisited claims

/-- A worker goes on with the next region where that it claims one adds none that is selected. -/
theorem proceed (adds : base.selects (claimer.visited start visited) = true →
      claimer.Holds (claimer.visited start visited)) :
    Steps base regions chunkSize ⟨start, visited, updater, .visiting⟩ others
      (⟨start, visited + 1, updater, .visiting⟩, chooser, claimer') := by
  have sound := (collecting.sound _ List.mem_cons_self).mono claims
  refine ⟨⟨placed, collecting.of_step (Chooser.Alike.refl chooser) rfl rfl
    (claims.regions.trans collecting.claims) collecting.filling (sound.proceed ?_ ?_)
    (fun other member => (collecting.sound other (List.mem_cons_of_mem _ member)).mono claims)
    collecting.nodup ?_ rfl rfl⟩, ?_⟩
  · rw [claims.regions]
    exact unvisited
  · rw [Claimer.visited_eq claims.regions]
    exact claims.held
  · intro index
    rw [claims.holds index]
    refine (collecting.exactly index).trans ⟨fun both => ⟨Or.inl both.1, both.2⟩, ?_⟩
    rintro ⟨isHeld | rfl, selected⟩
    · exact ⟨isHeld, selected⟩
    · exact ⟨adds selected, selected⟩
  · have sameRegions := collecting.claims
    change 3 * (regions - (visited + 1)) + 2 ≤ 3 * (regions - visited) + 2 - 1
    omega

/-- A worker keeps a region that is selected and that nobody claimed before. -/
theorem keep (fresh : ¬claimer.Holds (claimer.visited start visited))
    (found : base.heap[claimer.visited start visited]? = some region)
    (isIndex : region.index = claimer.visited start visited)
    (selected : base.selects (claimer.visited start visited) = true) :
    Steps base regions chunkSize ⟨start, visited, updater, .visiting⟩ others
      (⟨start, visited, updater, if updater.isFull then .claiming region else .placing region⟩,
        chooser, claimer') := by
  have sound := (collecting.sound _ List.mem_cons_self).mono claims
  have run := collecting.filling.run updater List.mem_cons_self
  have busy : ∀ stage, Worker.BusyWith base claimer' ⟨start, visited, updater, stage⟩ region := by
    intro stage
    refine ⟨?_, ?_, ?_, ?_⟩
    · rw [claims.regions]
      exact unvisited
    · rw [Claimer.visited_eq claims.regions]
      exact claims.held
    · rw [isIndex]
      exact found
    · rw [isIndex]
      exact selected
  generalize isStage : (if updater.isFull then Stage.claiming region else .placing region) = stage
  have either : (stage = .claiming region ∧ updater.next = updater.stop) ∨
      stage = .placing region ∧ updater.next < updater.stop := by
    unfold Updater.isFull at isStage
    split at isStage
    · next full => exact Or.inl ⟨isStage.symm, beq_iff_eq.mp full⟩
    · next notFull => exact Or.inr ⟨isStage.symm, Nat.lt_of_le_of_ne run.1 fun same =>
        notFull (beq_iff_eq.mpr same)⟩
  have pending : Worker.pending ⟨start, visited, updater, stage⟩ = some region.index := by
    rcases either with ⟨rfl, _⟩ | ⟨rfl, _⟩ <;> rfl
  have nodup := collecting.nodup
  have exactly := collecting.exactly
  rw [List.filterMap_cons_none rfl] at nodup exactly
  refine ⟨⟨placed, collecting.of_step (Chooser.Alike.refl chooser) rfl rfl
    (claims.regions.trans collecting.claims) collecting.filling
    ⟨sound.visited_le, sound.claimed, sound.bytes, ?_⟩
    (fun other member => (collecting.sound other (List.mem_cons_of_mem _ member)).mono claims)
    ?_ ?_ ?_ ?_⟩, ?_⟩
  · rcases either with ⟨rfl, full⟩ | ⟨rfl, someLeft⟩
    · exact ⟨busy _, full⟩
    · exact ⟨busy _, someLeft⟩
  · rw [List.filterMap_cons_some pending, List.perm_middle.nodup_iff, List.nodup_cons]
    refine ⟨fun member => fresh ?_, nodup⟩
    rw [← isIndex]
    exact ((exactly _).mp member).1
  · intro index
    rw [List.filterMap_cons_some pending, List.mem_append, List.mem_cons, or_left_comm,
      ← List.mem_append, exactly index, claims.holds index, isIndex]
    constructor
    · rintro (rfl | both)
      · exact ⟨Or.inr rfl, selected⟩
      · exact ⟨Or.inl both.1, both.2⟩
    · rintro ⟨isHeld | rfl, isSelected⟩
      · exact Or.inr ⟨isHeld, isSelected⟩
      · exact Or.inl rfl
  · rcases either with ⟨rfl, _⟩ | ⟨rfl, _⟩ <;> rfl
  · rcases either with ⟨rfl, _⟩ | ⟨rfl, _⟩ <;> rfl
  · rcases either with ⟨rfl, _⟩ | ⟨rfl, _⟩
    · exact Nat.le_refl _
    · exact Nat.le_succ _

end Visiting

/-- A worker claims the next region, and considers it if the claim succeeds. -/
theorem visit_ensures
    (collecting : Collecting base regions chunkSize chooser claimer
      (⟨start, visited, updater, .visiting⟩ :: others) placed)
    (ready : base.Ready (others.length + 1) regions chunkSize)
    (unvisited : visited < claimer.regions) :
    Ensures excuse (Worker.step ⟨start, visited, updater, .visiting⟩ chooser claimer)
      (Steps base regions chunkSize ⟨start, visited, updater, .visiting⟩ others) := by
  have inside : claimer.visited start visited < claimer.regions :=
    Claimer.visited_lt visited (Nat.zero_lt_of_lt unvisited)
  change Ensures excuse (if visited < claimer.regions then _ else _) _
  rw [if_pos unvisited]
  apply Ensures.bind (Claimer.claim_ensures inside)
  rintro ⟨isFirst, after⟩ ⟨first, claims⟩
  cases isFirst with
  | false =>
    refine collecting.proceed unvisited claims fun _ => Classical.not_not.mp fun notHeld => ?_
    exact absurd (first.mpr notHeld) Bool.false_ne_true
  | true =>
    have inHeap : claimer.visited start visited < base.heap.size :=
      Nat.lt_of_lt_of_le (by rw [← collecting.claims]; exact inside) ready.regions_le
    obtain ⟨region, found⟩ : ∃ region, base.heap[claimer.visited start visited]? = some region :=
      ⟨_, Array.getElem?_eq_getElem inHeap⟩
    have foundHere := found
    rw [← collecting.alike.heap] at foundHere
    dsimp only
    rw [if_neg (by decide), foundHere]
    change Steps _ _ _ _ _ (Worker.consider _ _ _, _, _)
    unfold Worker.consider
    rw [collecting.alike.shouldAdd, ← Chooser.selects_of_found found]
    by_cases selected : base.selects (claimer.visited start visited) = true
    · rw [if_pos selected]
      exact collecting.keep unvisited claims (first.mp rfl) found (ready.indexed _ _ found) selected
    · rw [if_neg selected]
      exact collecting.proceed unvisited claims fun isSelected => absurd isSelected selected

/-- A worker that visited all regions counts what it added. -/
theorem leave_ensures
    (collecting : Collecting base regions chunkSize chooser claimer
      (⟨start, visited, updater, .visiting⟩ :: others) placed)
    (ready : base.Ready (others.length + 1) regions chunkSize) (all : visited = claimer.regions) :
    Ensures excuse (Worker.step ⟨start, visited, updater, .visiting⟩ chooser claimer)
      (Steps base regions chunkSize ⟨start, visited, updater, .visiting⟩ others) := by
  have sound := collecting.sound _ List.mem_cons_self
  have othersSound := fun other member => collecting.sound other (List.mem_cons_of_mem _ member)
  have few : chooser.length + updater.added ≤ regions := collecting.counted_le.1 rfl
  have room := ready.room
  have short := ready.short
  change Ensures excuse
    (if visited < claimer.regions then _ else if 0 < updater.added then _ else _) _
  rw [if_neg (Nat.not_lt_of_le (Nat.le_of_eq all.symm))]
  split
  · have noWrap : (chooser.length + updater.added) % wordLimit = chooser.length + updater.added :=
      Nat.mod_eq_of_lt (by omega)
    refine ⟨⟨placed, collecting.of_step ⟨rfl, rfl, rfl⟩ rfl rfl collecting.claims
      (collecting.filling.of_same rfl rfl rfl) ⟨sound.visited_le, sound.claimed, sound.bytes, all⟩
      othersSound collecting.nodup collecting.exactly noWrap rfl⟩, Nat.le_refl _⟩
  · next nothing =>
    have isZero : updater.added = 0 := Nat.eq_zero_of_not_pos nothing
    refine ⟨⟨placed, collecting.of_step (Chooser.Alike.refl chooser) rfl rfl collecting.claims
      collecting.filling ⟨sound.visited_le, sound.claimed, sound.bytes, all⟩ othersSound
      collecting.nodup collecting.exactly (congrArg _ isZero.symm)
      (congrArg _ (sound.bytes isZero).symm)⟩, Nat.le_succ _⟩

/-- A worker claims a run of slots for a region. -/
theorem claim_ensures
    (collecting : Collecting base regions chunkSize chooser claimer
      (⟨start, visited, updater, .claiming region⟩ :: others) placed)
    (ready : base.Ready (others.length + 1) regions chunkSize) :
    Ensures excuse (Worker.step ⟨start, visited, updater, .claiming region⟩ chooser claimer)
      (Steps base regions chunkSize ⟨start, visited, updater, .claiming region⟩ others) := by
  have sound := collecting.sound _ List.mem_cons_self
  have othersSound := fun other member => collecting.sound other (List.mem_cons_of_mem _ member)
  obtain ⟨busy, full⟩ := sound.stage
  have positive := ready.positive
  have room : chooser.cursor + chunkSize ≤ chooser.slots.size := by
    have claimedLe := collecting.filling.cursor_le full
    have within := (collecting.within_pending rfl).1
    have enough := ready.room
    rw [collecting.capacity]
    rw [List.length_map] at claimedLe
    rw [Nat.succ_mul] at enough
    omega
  change Ensures excuse (updater.claim chooser >>= _) _
  apply Ensures.bind (collecting.filling.claim_ensures full room (by
    rw [collecting.capacity]
    exact ready.short))
  rintro ⟨after, _⟩ ⟨rfl, rfl, filling⟩
  refine ⟨⟨placed, collecting.of_step ⟨rfl, rfl, rfl⟩ rfl rfl collecting.claims filling
    ⟨sound.visited_le, sound.claimed, sound.bytes, ⟨busy.unvisited, busy.claimed, busy.found,
      busy.selected⟩, Nat.lt_add_of_pos_right positive⟩ othersSound collecting.nodup
    collecting.exactly rfl rfl⟩, Nat.le_refl _⟩

/-- A worker puts a region into a slot. -/
theorem place_ensures
    (collecting : Collecting base regions chunkSize chooser claimer
      (⟨start, visited, updater, .placing region⟩ :: others) placed)
    (ready : base.Ready (others.length + 1) regions chunkSize) :
    Ensures excuse (Worker.step ⟨start, visited, updater, .placing region⟩ chooser claimer)
      (Steps base regions chunkSize ⟨start, visited, updater, .placing region⟩ others) := by
  have sound := collecting.sound _ List.mem_cons_self
  have othersSound := fun other member => collecting.sound other (List.mem_cons_of_mem _ member)
  obtain ⟨busy, someLeft⟩ := sound.stage
  have old : region.isOld = true := by
    obtain ⟨other, found, should⟩ := Chooser.exists_of_selects busy.selected
    rw [Option.some.inj (busy.found.symm.trans found)]
    exact (Chooser.of_shouldAdd should).1
  have found : chooser.heap[region.index]? = some region := by
    rw [collecting.alike.heap]
    exact busy.found
  have short : updater.bytes + region.reclaimableBytes < wordLimit := by
    have within := (collecting.within_pending rfl).2
    have most := ready.bytes
    have bytes : chooser.bytesOf placed = updater.bytes + _ := collecting.filling.bytes
    rw [collecting.alike.bytesOf] at bytes
    rw [Chooser.bytesAt_of_found busy.found] at within
    omega
  change Ensures excuse (updater.place chooser region >>= _) _
  apply Ensures.bind (collecting.filling.place_ensures someLeft old found short)
  rintro ⟨after, _⟩ ⟨⟨slots, capacity, rfl⟩, rfl, filling⟩
  have moved : (region.index :: placed ++ others.filterMap Worker.pending).Perm
      (placed ++ region.index :: others.filterMap Worker.pending) := List.perm_middle.symm
  have advanced : ∀ after : Updater, after.added = updater.added + 1 →
      Worker.Sound base claimer ⟨start, visited + 1, after, .visiting⟩ := by
    intro after added
    have before : Worker.Sound base claimer ⟨start, visited, after, .visiting⟩ :=
      ⟨sound.visited_le, sound.claimed, fun nothing => absurd (added.symm.trans nothing)
        (Nat.succ_ne_zero _), trivial⟩
    exact before.proceed busy.unvisited busy.claimed
  refine ⟨⟨region.index :: placed, collecting.of_step ⟨rfl, rfl, rfl⟩ rfl capacity collecting.claims
    filling (advanced _ rfl) othersSound (moved.nodup_iff.mpr collecting.nodup)
    (fun index => moved.mem_iff.trans (collecting.exactly index)) rfl rfl⟩, ?_⟩
  have claims := collecting.claims
  have unvisited : visited < claimer.regions := busy.unvisited
  change 3 * (regions - (visited + 1)) + 2 ≤ 3 * (regions - visited) + 0 - 1
  omega

/-- A worker that counted its regions counts their bytes. -/
theorem close_ensures
    (collecting : Collecting base regions chunkSize chooser claimer
      (⟨start, visited, updater, .closing⟩ :: others) placed)
    (ready : base.Ready (others.length + 1) regions chunkSize) :
    Ensures excuse (Worker.step ⟨start, visited, updater, .closing⟩ chooser claimer)
      (Steps base regions chunkSize ⟨start, visited, updater, .closing⟩ others) := by
  have sound := collecting.sound _ List.mem_cons_self
  have othersSound := fun other member => collecting.sound other (List.mem_cons_of_mem _ member)
  have few : chooser.remainingBytes + updater.bytes ≤ base.bytesOf (base.selection regions) :=
    collecting.counted_le.2 rfl
  have noWrap : (chooser.remainingBytes + updater.bytes) % wordLimit =
      chooser.remainingBytes + updater.bytes := Nat.mod_eq_of_lt (Nat.lt_of_le_of_lt few ready.bytes)
  exact ⟨⟨placed, collecting.of_step ⟨rfl, rfl, rfl⟩ rfl rfl collecting.claims
    (collecting.filling.of_same rfl rfl rfl)
    ⟨sound.visited_le, sound.claimed, sound.bytes, sound.stage⟩ othersSound collecting.nodup
    collecting.exactly rfl noWrap⟩, Nat.le_refl _⟩

/-- Every step of a worker is taken, and leaves it with fewer steps to take. -/
theorem step_ensures
    (collecting : Collecting base regions chunkSize chooser claimer (worker :: others) placed)
    (ready : base.Ready (others.length + 1) regions chunkSize) :
    Ensures excuse (worker.step chooser claimer) (Steps base regions chunkSize worker others) := by
  obtain ⟨start, visited, updater, stage⟩ := worker
  cases stage with
  | visiting =>
    have visitedLe := (collecting.sound _ List.mem_cons_self).visited_le
    rcases Nat.lt_or_eq_of_le visitedLe with unvisited | all
    · exact collecting.visit_ensures ready unvisited
    · exact collecting.leave_ensures ready all
  | claiming region => exact collecting.claim_ensures ready
  | placing region => exact collecting.place_ensures ready
  | closing => exact collecting.close_ensures ready
  | finished =>
    have visited : visited = claimer.regions := (collecting.sound _ List.mem_cons_self).stage
    refine ⟨⟨placed, collecting⟩, ?_⟩
    change 3 * (regions - _) + 0 ≤ 3 * (regions - _) + 0 - 1
    rw [visited, collecting.claims, Nat.sub_self]

end Collecting

end CollectorMemory
