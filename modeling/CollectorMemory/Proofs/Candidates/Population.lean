import CollectorMemory.Proofs.Candidates.Collecting
import CollectorMemory.Proofs.Candidates.Turns
import Mathlib.Data.List.Forall2

/-!
# Schedules

Under every schedule no worker stops with a fault. A schedule that lets every worker take as many
steps as it has at most finishes all of them, and when all are finished the regions that are selected
were put into slots, each of them once, and the chooser counts them and their bytes.
-/

namespace CollectorMemory

variable {excuse : Prop} {base chooser : Chooser} {claimer : Claimer} {worker : Worker}
  {population : Population} {regions chunkSize index : Nat}

/-- A worker without steps to take is finished. -/
theorem Worker.Sound.finished (sound : worker.Sound base claimer)
    (nothing : worker.stepsLeft claimer.regions = 0) : worker.stage = .finished := by
  obtain ⟨start, visited, updater, stage⟩ := worker
  unfold Worker.stepsLeft at nothing
  cases stage with
  | placing region =>
    have unvisited : visited < claimer.regions := sound.stage.1.unvisited
    change 3 * (claimer.regions - visited) + 0 = 0 at nothing
    omega
  | finished => rfl
  | visiting | claiming _ | closing => exact absurd nothing (Nat.succ_ne_zero _)

/-- A worker that took no step yet. -/
def Worker.Fresh (chunkSize : Nat) (worker : Worker) : Prop :=
  worker.visited = 0 ∧ worker.updater = Updater.ofChunkSize chunkSize ∧ worker.stage = .visiting

/-- Workers that took no step collect candidates into slots that are empty. -/
theorem Collecting.start {team : List Worker} (fresh : ∀ worker ∈ team, worker.Fresh chunkSize)
    (empty : ∀ slot ∈ base.slots.toList, slot = none) (cursor : base.cursor = 0)
    (length : base.length = 0) (bytes : base.remainingBytes = 0)
    (unclaimed : ∀ index, ¬claimer.Holds index) :
    Collecting base claimer.regions chunkSize base claimer team [] := by
  have nonePending : team.filterMap Worker.pending = [] := by
    apply List.filterMap_eq_nil_iff.mpr
    intro worker member
    unfold Worker.pending
    rw [(fresh worker member).2.2]
  have updaters : team.map Worker.updater =
      List.replicate team.length (Updater.ofChunkSize chunkSize) := by
    rw [← List.map_const']
    exact List.map_congr_left fun worker member => (fresh worker member).2.1
  have nothingCounted : ∀ count : Worker → Nat, (∀ worker ∈ team, count worker = 0) →
      (team.map count).sum = 0 := by
    intro count zero
    apply List.sum_eq_zero
    intro value member
    obtain ⟨worker, inTeam, rfl⟩ := List.mem_map.mp member
    exact zero worker inTeam
  refine ⟨Chooser.Alike.refl base, rfl, rfl, rfl, ?_, ?_, ?_, ?_, ?_, ?_⟩
  · rw [updaters]
    exact Filling.start empty cursor
  · intro worker member
    obtain ⟨visited, updater, stage⟩ := fresh worker member
    refine ⟨?_, ?_, ?_, ?_⟩
    · rw [visited]
      exact Nat.zero_le _
    · rw [visited]
      exact fun count before => absurd before (Nat.not_lt_zero count)
    · rw [updater]
      exact fun _ => rfl
    · unfold Worker.StageSound
      rw [stage]
      trivial
  · rw [nonePending]
    exact List.nodup_nil
  · intro index
    rw [nonePending]
    exact ⟨fun member => absurd member List.not_mem_nil, fun both => absurd both.1 (unclaimed index)⟩
  · rw [length, nothingCounted]
    intro worker member
    unfold Worker.countedRegions
    rw [(fresh worker member).2.2]
  · rw [bytes, nothingCounted]
    intro worker member
    unfold Worker.countedBytes
    rw [(fresh worker member).2.2]

namespace Population

/-- A population while it collects candidates. -/
def Collects (base : Chooser) (regions chunkSize : Nat) (population : Population) : Prop :=
  ∃ placed, Collecting base regions chunkSize population.chooser population.claimer
    population.workers.toList placed

/-- A step of any worker is taken. -/
theorem step_ensures {turn : Nat} (collects : population.Collects base regions chunkSize)
    (ready : base.Ready population.workers.size regions chunkSize) :
    Ensures excuse (population.step turn) fun after =>
      after.Collects base regions chunkSize ∧ Advances (Worker.stepsLeft regions) [turn]
        population.workers.toList after.workers.toList := by
  unfold step
  cases found : population.workers[turn]? with
  | none =>
    rw [← Array.getElem?_toList] at found
    exact ⟨collects, Advances.of_none found⟩
  | some worker =>
    rw [← Array.getElem?_toList] at found
    obtain ⟨front, back, split, replaced⟩ := exists_split found
    have size : population.workers.size = (front ++ back).length + 1 := by
      have length := congrArg List.length split
      rw [Array.length_toList, List.perm_middle.length_eq, List.length_cons] at length
      exact length
    obtain ⟨placed, collecting⟩ := collects
    rw [split] at collecting
    rw [size] at ready
    apply Ensures.bind ((collecting.of_perm List.perm_middle).step_ensures ready)
    rintro ⟨worker', chooser', claimer'⟩ ⟨⟨placed', later⟩, fewer⟩
    change (∃ placed, Collecting _ _ _ chooser' claimer'
        (population.workers.setIfInBounds turn worker').toList placed) ∧
      Advances _ _ _ (population.workers.setIfInBounds turn worker').toList
    rw [Array.toList_setIfInBounds]
    refine ⟨⟨placed', ?_⟩, Advances.of_step found fewer⟩
    rw [replaced worker']
    exact later.of_perm List.perm_middle.symm

/-- Under every schedule all steps are taken. -/
theorem run_ensures {schedule : List Nat} (collects : population.Collects base regions chunkSize)
    (ready : base.Ready population.workers.size regions chunkSize) :
    Ensures excuse (population.run schedule) fun after =>
      after.Collects base regions chunkSize ∧ Advances (Worker.stepsLeft regions) schedule
        population.workers.toList after.workers.toList := by
  induction schedule generalizing population with
  | nil => exact ⟨collects, Advances.refl _⟩
  | cons turn rest ih =>
    unfold run
    rw [List.foldlM_cons]
    apply Ensures.bind (step_ensures collects ready)
    rintro middle ⟨collectsMiddle, first⟩
    have size : middle.workers.size = population.workers.size := first.1
    apply (ih collectsMiddle (by rw [size]; exact ready)).mono
    rintro after ⟨collectsAfter, later⟩
    exact ⟨collectsAfter, first.cons later⟩

/-- The workers at the start, before the first step. -/
theorem start_ensures {workers : Nat} (empty : ∀ slot ∈ base.slots.toList, slot = none)
    (cursor : base.cursor = 0) (length : base.length = 0) (bytes : base.remainingBytes = 0)
    (positive : 0 < workers) (short : ¬excuse → regions * workers < wordLimit) :
    Ensures excuse (start base workers regions chunkSize) fun population =>
      population.Collects base regions chunkSize ∧ population.workers.size = workers ∧
        ∀ worker ∈ population.workers.toList, worker.stepsLeft regions = 3 * regions + 2 := by
  unfold start
  apply Ensures.bind (Claimer.ofCounts_ensures positive)
  rintro claimer ⟨sameWorkers, rfl, unclaimed⟩
  have each : ∀ worker ∈ List.range workers, Ensures excuse
      (Worker.ofClaimer claimer chunkSize worker) fun result => result.Fresh chunkSize ∧ True := by
    intro worker member
    have inside := List.mem_range.mp member
    apply Ensures.bind (Claimer.offset_ensures (by rw [sameWorkers]; exact inside)
      fun hard => Nat.lt_of_le_of_lt (Nat.mul_le_mul_left _ (Nat.le_of_lt inside)) (short hard))
    intro _ _
    exact ⟨⟨rfl, rfl, rfl⟩, trivial⟩
  apply Ensures.bind (ensures_mapM each)
  intro team isTeam
  have fresh : ∀ worker ∈ team, worker.Fresh chunkSize :=
    ((List.forall₂_and_left team (List.range workers)).mp isTeam.flip).1
  refine ⟨⟨[], Collecting.start fresh empty cursor length bytes unclaimed⟩, ?_, ?_⟩
  · change team.length = workers
    rw [← isTeam.length_eq, List.length_range]
  · intro worker member
    obtain ⟨visited, _, stage⟩ := fresh worker member
    unfold Worker.stepsLeft
    rw [visited, stage]
    rfl

end Population

/-- When all workers are finished, the slots hold what is kept of the regions that are selected, and
all of these are counted. -/
theorem Collecting.finished {workers : List Worker} {placed : List Nat}
    (collecting : Collecting base regions chunkSize chooser claimer workers placed)
    (nonempty : workers ≠ [])
    (finished : ∀ worker ∈ workers, worker.stage = .finished) :
    chooser.filled.Perm (Slot.kept (base.selection regions)) ∧
      chooser.length = (base.selection regions).length ∧
      chooser.remainingBytes = base.bytesOf (base.selection regions) := by
  have nonePending : workers.filterMap Worker.pending = [] := by
    apply List.filterMap_eq_nil_iff.mpr
    intro worker member
    unfold Worker.pending
    rw [finished worker member]
  have allClaimed : ∀ index, claimer.Holds index ↔ index < regions := by
    intro index
    rw [← collecting.claims]
    constructor
    · intro holds
      exact (Array.getElem?_eq_some_iff.mp holds).1
    · intro inside
      obtain ⟨worker, member⟩ := List.exists_mem_of_ne_nil workers nonempty
      have sound := collecting.sound worker member
      have visited : worker.visited = claimer.regions := by
        have stage := sound.stage
        unfold Worker.StageSound at stage
        rw [finished worker member] at stage
        exact stage
      obtain ⟨count, before, isIndex⟩ := Claimer.exists_visited worker.start inside
      rw [← isIndex]
      exact sound.claimed count (by rw [visited]; exact before)
  have nodup := collecting.nodup
  have exactly := collecting.exactly
  rw [nonePending, List.append_nil] at nodup exactly
  have selected : placed.Perm (base.selection regions) := by
    apply (List.perm_ext_iff_of_nodup nodup Chooser.selection_nodup).mpr
    intro index
    rw [exactly index, allClaimed index, Chooser.mem_selection]
  refine ⟨collecting.filling.held.trans (selected.filter _), ?_, ?_⟩
  · rw [collecting.length, ← selected.length_eq, collecting.filling.added, List.map_map]
    congr 1
    apply List.map_congr_left
    intro worker member
    unfold Worker.countedRegions
    rw [finished worker member]
    rfl
  · rw [collecting.bytes, ← Chooser.bytesOf_perm selected, ← collecting.alike.bytesOf,
      collecting.filling.bytes, List.map_map]
    congr 1
    apply List.map_congr_left
    intro worker member
    unfold Worker.countedBytes
    rw [finished worker member]
    rfl

end CollectorMemory
