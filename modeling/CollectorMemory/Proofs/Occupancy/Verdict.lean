import CollectorMemory.Occupancy.Audit
import CollectorMemory.Proofs.Occupancy.Granules

/-!
# What the check of a range of the map accepts

`Occupancy.audit` compares a range of the map with headers of which nothing is assumed. It finds out
where a chunk ends at the start of the next one, and the last chunk has no next one. `Tiled` says that
the map shows a row of chunks that tile the range. What the check accepts is `Accounts`: a row that tiles
the range up to the last chunk, whose marks go on to the end of the range, while by its header it may end
inside of the last granule, or be empty if it has only one. These rows are exact tilings if the size of
the last chunk is a positive multiple of the granule.
-/

namespace CollectorMemory

namespace Occupancy

/-- A chunk that is found at a marked start: where it starts and what its header says. -/
structure Found where
  /-- The offset of the start. -/
  start : Nat
  /-- The header found there. -/
  header : Header

/-- The size that the header of a chunk says. -/
def Found.size (chunk : Found) : Nat := chunk.header.size.toNat

/-- Where a chunk ends by its header. -/
def Found.stop (chunk : Found) : Nat := chunk.start + chunk.size

/-- A chunk with a valid header, which starts at a multiple of its size if the size is fixed. -/
structure Found.Valid (chunk : Found) : Prop where
  /-- The header is that of a chunk. -/
  isAlive : chunk.header.isAlive = true
  /-- The kind is known. -/
  kind : chunk.header.kind?.isSome = true
  /-- A chunk of a fixed size is aligned to its size. -/
  aligned : chunk.header.kind? = some .humongous ∨ 0 < chunk.size ∧ chunk.start % chunk.size = 0

variable {map : Occupancy} {headerAt : Nat → Except Fault Header} {chunk last : Found}
  {before rest row : List Found} {first stop offset : Nat}

/-- The map shows the first granule of a chunk: a start, in use or, if the chunk is free, not. -/
structure Opens (map : Occupancy) (headerAt : Nat → Except Fault Header) (chunk : Found) : Prop where
  /-- The chunk starts at a granule. -/
  whole : chunk.start % map.granule = 0
  /-- The start is marked. -/
  marked : map.marksStart chunk.start = true
  /-- The header is found at the start. -/
  header : headerAt chunk.start = .ok chunk.header
  /-- The granule is in use or, if the chunk is free, it is not. -/
  inUse : map.marksInUse chunk.start = !chunk.header.isFree

/-- The map shows the granules of `[low, high)` as further granules of a chunk. -/
structure Extends (map : Occupancy) (chunk : Found) (low high : Nat) : Prop where
  /-- No start is marked. -/
  unmarked : ∀ offset, offset % map.granule = 0 → low ≤ offset → offset < high →
    map.marksStart offset = false
  /-- The granules are in use or, if the chunk is free, they are not. -/
  inUse : ∀ offset, offset % map.granule = 0 → low ≤ offset → offset < high →
    map.marksInUse offset = !chunk.header.isFree

/-- The map shows a row of chunks that tile a range: each is there from its start to the next one, and
none is empty. -/
def Tiled (map : Occupancy) (headerAt : Nat → Except Fault Header) : Nat → List Found → Nat → Prop
  | start, [], stop => start = stop
  | start, chunk :: rest, stop => chunk.start = start ∧ 0 < chunk.size ∧ map.Opens headerAt chunk ∧
      map.Extends chunk (chunk.start + map.granule) chunk.stop ∧ map.Tiled headerAt chunk.stop rest stop

/-- What the check accepts: a row of valid chunks tiles the range up to the last one, which the map shows
up to the end of the range and which ends by its header in the last granule, unless that is its only
one. -/
structure Accounts (map : Occupancy) (headerAt : Nat → Except Fault Header) (first stop : Nat)
    (before : List Found) (last : Found) : Prop where
  /-- The chunks before the last one tile what is in front of it. -/
  front : map.Tiled headerAt first before last.start
  /-- The headers are valid. -/
  valid : ∀ chunk ∈ before ++ [last], chunk.Valid
  /-- The map shows the first granule of the last chunk. -/
  opens : map.Opens headerAt last
  /-- The map shows the last chunk up to the end of the range. -/
  extends_ : map.Extends last (last.start + map.granule) stop
  /-- The last chunk starts in the range. -/
  start_lt : last.start < stop
  /-- The last chunk does not leave the range. -/
  stop_le : last.stop ≤ stop
  /-- The last chunk comes to the last granule, or has no other. -/
  reaches : last.start + map.granule = stop ∨ stop < last.stop + map.granule

/-- An offset in steps of the granule that lies above another one is a granule above it or more. -/
theorem add_granule_le {offset other : Nat} (whole : offset % map.granule = 0)
    (otherWhole : other % map.granule = 0) (below : offset < other) : offset + map.granule ≤ other :=
  Nat.ModEq.add_le_of_lt (whole.trans otherWhole.symm) below

/-- The granules of a chunk from an offset on are the one there and those from the next one on. -/
theorem extends_iff (whole : offset % map.granule = 0) (below : offset < stop) :
    map.Extends chunk offset stop ↔ (map.marksStart offset = false ∧
      map.marksInUse offset = !chunk.header.isFree) ∧ map.Extends chunk (offset + map.granule) stop := by
  constructor
  · intro shown
    refine ⟨⟨shown.unmarked offset whole (Nat.le_refl offset) below,
      shown.inUse offset whole (Nat.le_refl offset) below⟩, ?_, ?_⟩
    · exact fun other otherWhole lower => shown.unmarked other otherWhole (by omega)
    · exact fun other otherWhole lower => shown.inUse other otherWhole (by omega)
  · intro ⟨⟨unmarked, inUse⟩, later⟩
    constructor <;> intro other otherWhole lower upper
    · rcases Nat.eq_or_lt_of_le lower with rfl | above
      · exact unmarked
      · exact later.unmarked other otherWhole (add_granule_le whole otherWhole above) upper
    · rcases Nat.eq_or_lt_of_le lower with rfl | above
      · exact inUse
      · exact later.inUse other otherWhole (add_granule_le whole otherWhole above) upper

/-- No granules are shown as those of any chunk. -/
theorem extends_empty (empty : stop ≤ offset) : map.Extends chunk offset stop where
  unmarked other _ lower upper := by omega
  inUse other _ lower upper := by omega

/-- A row starts with a marked start in the range. -/
theorem Accounts.first_marked (accounts : map.Accounts headerAt first stop before last) :
    first % map.granule = 0 ∧ map.marksStart first = true ∧ first < stop := by
  induction before generalizing first with
  | nil =>
    have same : first = last.start := accounts.front
    rw [same]
    exact ⟨accounts.opens.whole, accounts.opens.marked, accounts.start_lt⟩
  | cons head rest ih =>
    obtain ⟨rfl, positive, opens, -, tiled⟩ := accounts.front
    obtain ⟨-, -, below⟩ := ih ⟨tiled, fun chunk member => accounts.valid chunk
      (List.mem_cons_of_mem head member), accounts.opens, accounts.extends_, accounts.start_lt,
      accounts.stop_le, accounts.reaches⟩
    unfold Found.stop at below
    exact ⟨opens.whole, opens.marked, by omega⟩

/-- The first chunk of a row stands in front of the row of the others. -/
theorem accounts_cons : map.Accounts headerAt first stop (chunk :: rest) last ↔
    (chunk.start = first ∧ 0 < chunk.size ∧ map.Opens headerAt chunk ∧
      map.Extends chunk (chunk.start + map.granule) chunk.stop ∧ chunk.Valid) ∧
        map.Accounts headerAt chunk.stop stop rest last := by
  constructor
  · intro accounts
    obtain ⟨start, positive, opens, shown, tiled⟩ := accounts.front
    refine ⟨⟨start, positive, opens, shown, accounts.valid chunk List.mem_cons_self⟩, tiled, ?_,
      accounts.opens, accounts.extends_, accounts.start_lt, accounts.stop_le, accounts.reaches⟩
    exact fun other member => accounts.valid other (List.mem_cons_of_mem chunk member)
  · intro ⟨⟨start, positive, opens, shown, valid⟩, later⟩
    exact ⟨⟨start, positive, opens, shown, later.front⟩, List.forall_mem_cons.mpr ⟨valid, later.valid⟩,
      later.opens, later.extends_, later.start_lt, later.stop_le, later.reaches⟩

/-- A tiling ends where it starts or later. -/
theorem Tiled.le {first : Nat} (tiled : map.Tiled headerAt first row stop) : first ≤ stop := by
  induction row generalizing first with
  | nil => exact Nat.le_of_eq tiled
  | cons head rest ih =>
    obtain ⟨rfl, -, -, -, later⟩ := tiled
    exact Nat.le_trans (Nat.le_add_right head.start head.size) (ih later)

/-- A row with a last chunk is tiled if the chunks before it are and the last one ends at the end. -/
theorem tiled_concat {first : Nat} : map.Tiled headerAt first (before ++ [last]) stop ↔
    map.Tiled headerAt first before last.start ∧ 0 < last.size ∧ map.Opens headerAt last ∧
      map.Extends last (last.start + map.granule) last.stop ∧ last.stop = stop := by
  induction before generalizing first with
  | nil => exact and_congr_left fun _ => eq_comm
  | cons head rest ih =>
    rw [List.cons_append, Tiled, Tiled, ih]
    simp only [and_assoc]

/-- Chunks that are found at the same start are the same. -/
theorem Opens.eq (opens : map.Opens headerAt chunk) {other : Found}
    (otherOpens : map.Opens headerAt other) (same : other.start = chunk.start) : other = chunk := by
  have header := otherOpens.header
  rw [same, opens.header, Except.ok.injEq] at header
  cases chunk
  cases other
  simp_all

/-- Where a row is accepted, no other row tiles the range. -/
theorem Accounts.eq_of_tiled (accounts : map.Accounts headerAt first stop before last)
    (tiled : map.Tiled headerAt first row stop) : row = before ++ [last] := by
  have below := accounts.first_marked.2.2
  induction before generalizing first row with
  | nil =>
    have start : first = last.start := accounts.front
    cases row with
    | nil => exact absurd tiled (Nat.ne_of_lt below)
    | cons head rest =>
      obtain ⟨isStart, positive, opens, -, later⟩ := tiled
      obtain rfl := accounts.opens.eq opens (isStart.trans start)
      cases rest with
      | nil => rfl
      | cons next others =>
        -- the next start would be one that the range of the last chunk does not show
        have inside := Tiled.le later
        obtain ⟨isNext, nextPositive, nextOpens, -, further⟩ := later
        have above : head.start < next.start := by
          rw [isNext]
          exact Nat.lt_add_of_pos_right positive
        have nextBelow : next.start < stop :=
          Nat.lt_of_lt_of_le (Nat.lt_add_of_pos_right nextPositive) (Tiled.le further)
        have unmarked := accounts.extends_.unmarked next.start nextOpens.whole
          (add_granule_le opens.whole nextOpens.whole above) nextBelow
        rw [nextOpens.marked] at unmarked
        cases unmarked
  | cons front others ih =>
    obtain ⟨⟨start, -, frontOpens, -, -⟩, frontLater⟩ := accounts_cons.mp accounts
    cases row with
    | nil => exact absurd tiled (Nat.ne_of_lt below)
    | cons head rest =>
      obtain ⟨isStart, -, opens, -, later⟩ := tiled
      obtain rfl := frontOpens.eq opens (isStart.trans start.symm)
      rw [ih frontLater later frontLater.first_marked.2.2, List.cons_append]

/-- The last chunk of an accepted row ends at the end of the range exactly if its size is a positive
multiple of the granule. -/
theorem Accounts.stop_eq_iff (accounts : map.Accounts headerAt first stop before last)
    (stopWhole : stop % map.granule = 0) :
    last.stop = stop ↔ 0 < last.size ∧ last.size % map.granule = 0 := by
  have below := accounts.start_lt
  have inside := accounts.stop_le
  have startWhole := accounts.opens.whole
  constructor
  · intro exact_
    have isSize : stop - last.start = last.size := by
      rw [← exact_, Found.stop, Nat.add_sub_cancel_left]
    refine ⟨by omega, ?_⟩
    rw [← isSize]
    exact Nat.sub_mod_eq_zero_of_mod_eq (stopWhole.trans startWhole.symm)
  · intro ⟨positive, sizeWhole⟩
    have lastWhole : last.stop % map.granule = 0 := add_whole startWhole sizeWhole
    have above : last.start + map.granule ≤ last.stop :=
      add_granule_le startWhole lastWhole (Nat.lt_add_of_pos_right positive)
    rcases Nat.eq_or_lt_of_le inside with same | short
    · exact same
    · have oneMore := add_granule_le lastWhole stopWhole short
      have reaches := accounts.reaches
      omega

/-- The row that is accepted tiles the range, and no other one does, if the size of its last chunk is a
positive multiple of the granule; otherwise no row does. -/
theorem Accounts.tiled_iff (accounts : map.Accounts headerAt first stop before last)
    (stopWhole : stop % map.granule = 0) :
    map.Tiled headerAt first row stop ↔
      row = before ++ [last] ∧ 0 < last.size ∧ last.size % map.granule = 0 := by
  rw [← accounts.stop_eq_iff stopWhole]
  constructor
  · intro tiled
    obtain rfl := accounts.eq_of_tiled tiled
    exact ⟨rfl, (tiled_concat.mp tiled).2.2.2.2⟩
  · rintro ⟨rfl, exact_⟩
    have positive := ((accounts.stop_eq_iff stopWhole).mp exact_).1
    refine tiled_concat.mpr ⟨accounts.front, positive, accounts.opens, ?_, exact_⟩
    rw [exact_]
    exact accounts.extends_

/-- The chunk goes on from an offset to the end of the range, and ends by its header in the last granule
unless no granule is left. -/
def Ends (map : Occupancy) (chunk : Found) (offset stop : Nat) : Prop :=
  map.Extends chunk offset stop ∧ (offset = stop ∨ stop < chunk.stop + map.granule)

/-- The chunk goes on from an offset to its end, where the row goes on. -/
def GoesOn (map : Occupancy) (headerAt : Nat → Except Fault Header) (chunk : Found)
    (offset stop : Nat) : Prop :=
  offset ≤ chunk.stop ∧ map.Extends chunk offset chunk.stop ∧
    ∃ before last, map.Accounts headerAt chunk.stop stop before last

/-- A row from an offset on is a valid chunk there that is the last one or is followed by a row. -/
theorem exists_accounts_iff : (∃ before last, map.Accounts headerAt first stop before last) ↔
    first < stop ∧ ∃ chunk : Found, chunk.start = first ∧ map.Opens headerAt chunk ∧ chunk.Valid ∧
      chunk.stop ≤ stop ∧ (map.Ends chunk (first + map.granule) stop ∨
        map.GoesOn headerAt chunk (first + map.granule) stop) := by
  constructor
  · intro ⟨before, last, accounts⟩
    refine ⟨accounts.first_marked.2.2, ?_⟩
    cases before with
    | nil =>
      have same : first = last.start := accounts.front
      subst same
      exact ⟨last, rfl, accounts.opens, accounts.valid last List.mem_cons_self, accounts.stop_le,
        Or.inl ⟨accounts.extends_, accounts.reaches⟩⟩
    | cons head rest =>
      obtain ⟨⟨rfl, positive, opens, shown, valid⟩, later⟩ := accounts_cons.mp accounts
      obtain ⟨nextWhole, -, nextBelow⟩ := later.first_marked
      have above : head.start < head.stop := Nat.lt_add_of_pos_right positive
      exact ⟨head, rfl, opens, valid, Nat.le_of_lt nextBelow,
        Or.inr ⟨add_granule_le opens.whole nextWhole above, shown, rest, last, later⟩⟩
  · rintro ⟨below, chunk, rfl, opens, valid, stopLe,
      ⟨shown, reaches⟩ | ⟨above, shown, rest, last, later⟩⟩
    · exact ⟨[], chunk, rfl, List.forall_mem_singleton.mpr valid, opens, shown, below, stopLe, reaches⟩
    · have positive : 0 < chunk.size := by
        have granulePositive := map.granule_pos
        unfold Found.stop at above
        omega
      exact ⟨chunk :: rest, last, accounts_cons.mpr ⟨⟨rfl, positive, opens, shown, valid⟩, later⟩⟩

/-- A chunk goes on from a granule without a start if the granule is in the chunk by its header, is
marked like it, and the chunk goes on from the next granule. -/
theorem ends_or_goesOn_unmarked_iff (unmarked : map.marksStart offset = false)
    (whole : offset % map.granule = 0) (below : offset < stop) (nextInside : offset + map.granule ≤ stop) :
    map.Ends chunk offset stop ∨ map.GoesOn headerAt chunk offset stop ↔
      offset < chunk.stop ∧ map.marksInUse offset = (!chunk.header.isFree) ∧
        (map.Ends chunk (offset + map.granule) stop ∨
          map.GoesOn headerAt chunk (offset + map.granule) stop) := by
  constructor
  · rintro (⟨shown, reaches⟩ | ⟨above, shown, before, last, accounts⟩)
    · obtain ⟨⟨-, inUse⟩, later⟩ := (extends_iff whole below).mp shown
      exact ⟨by omega, inUse, Or.inl ⟨later, by omega⟩⟩
    · obtain ⟨stopWhole, marked, -⟩ := accounts.first_marked
      have further : offset < chunk.stop := by
        rcases Nat.eq_or_lt_of_le above with same | further
        · rw [← same, unmarked] at marked
          cases marked
        · exact further
      obtain ⟨⟨-, inUse⟩, later⟩ := (extends_iff whole further).mp shown
      exact ⟨further, inUse,
        Or.inr ⟨add_granule_le whole stopWhole further, later, before, last, accounts⟩⟩
  · rintro ⟨further, inUse, ⟨later, reaches⟩ | ⟨above, later, accounted⟩⟩
    · exact Or.inl ⟨(extends_iff whole below).mpr ⟨⟨unmarked, inUse⟩, later⟩, by omega⟩
    · exact Or.inr ⟨by omega, (extends_iff whole further).mpr ⟨⟨unmarked, inUse⟩, later⟩, accounted⟩

/-- A chunk goes on from a marked start only if it ends there and the row goes on. -/
theorem ends_or_goesOn_marked_iff (marked : map.marksStart offset = true)
    (whole : offset % map.granule = 0) (below : offset < stop) :
    map.Ends chunk offset stop ∨ map.GoesOn headerAt chunk offset stop ↔
      chunk.stop = offset ∧ ∃ before last, map.Accounts headerAt offset stop before last := by
  have notShown : ∀ {high : Nat}, map.Extends chunk offset high → high ≤ offset := by
    intro high shown
    by_contra above
    have unmarked := shown.unmarked offset whole (Nat.le_refl offset) (Nat.lt_of_not_le above)
    rw [marked] at unmarked
    cases unmarked
  constructor
  · rintro (⟨shown, -⟩ | ⟨above, shown, accounted⟩)
    · exact absurd (notShown shown) (Nat.not_le_of_lt below)
    · have here : chunk.stop = offset := Nat.le_antisymm (notShown shown) above
      rw [here] at accounted
      exact ⟨here, accounted⟩
  · rintro ⟨rfl, accounted⟩
    exact Or.inr ⟨Nat.le_refl _, extends_empty (Nat.le_refl _), accounted⟩

/-- The alignment passes its check if the chunk is humongous or starts at a multiple of its size. -/
theorem auditAlignment_eq_ok_iff {header : Header} : auditAlignment offset header = .ok () ↔
    header.kind? = some .humongous ∨ 0 < header.size.toNat ∧ offset % header.size.toNat = 0 := by
  unfold auditAlignment Count.isMultiple
  split
  · next humongous => exact ⟨fun _ => Or.inl humongous, fun _ => rfl⟩
  · next fixed =>
    by_cases positive : 0 < header.size.toNat
    · simp [fixed, positive, require, bind, Except.bind, pure, Except.pure]
    · simp [fixed, positive, require, bind, Except.bind]

/-- A chunk is entered where one is expected, if its header is valid and it ends in the range. -/
theorem enter_eq_ok_iff {expected : Nat} {cover : Covering} (counted : stop < wordLimit) :
    enter stop headerAt offset expected = .ok cover ↔ expected = offset ∧ ∃ chunk : Found,
      chunk.start = offset ∧ headerAt chunk.start = .ok chunk.header ∧ chunk.Valid ∧
        chunk.stop ≤ stop ∧ cover = ⟨chunk.start, chunk.header, chunk.stop, 0⟩ := by
  unfold enter
  rw [require_bind_eq_ok_iff, beq_iff_eq]
  refine and_congr_right fun _ => ?_
  constructor
  · intro entered
    obtain ⟨header, isHeader, entered⟩ := bind_eq_ok_iff.mp entered
    obtain ⟨isAlive, entered⟩ := require_bind_eq_ok_iff.mp entered
    obtain ⟨kind, entered⟩ := require_bind_eq_ok_iff.mp entered
    obtain ⟨_, aligned, entered⟩ := bind_eq_ok_iff.mp entered
    obtain ⟨chunkStop, isStop, entered⟩ := bind_eq_ok_iff.mp entered
    obtain ⟨inside, entered⟩ := require_bind_eq_ok_iff.mp entered
    obtain ⟨rfl, -⟩ := Count.check_eq_ok_iff.mp isStop
    cases entered
    exact ⟨⟨offset, header⟩, rfl, isHeader, ⟨isAlive, kind, auditAlignment_eq_ok_iff.mp aligned⟩,
      of_decide_eq_true inside, rfl⟩
  · rintro ⟨chunk, rfl, isHeader, valid, inside, rfl⟩
    have sum : Count.add chunk.start chunk.header.size.toNat = .ok chunk.stop :=
      Count.check_eq_ok_iff.mpr ⟨rfl, Nat.lt_of_le_of_lt inside counted⟩
    refine bind_eq_ok_iff.mpr ⟨chunk.header, isHeader, ?_⟩
    refine require_bind_eq_ok_iff.mpr ⟨valid.isAlive, ?_⟩
    refine require_bind_eq_ok_iff.mpr ⟨valid.kind, ?_⟩
    refine bind_eq_ok_iff.mpr ⟨(), auditAlignment_eq_ok_iff.mpr valid.aligned, ?_⟩
    refine bind_eq_ok_iff.mpr ⟨chunk.stop, sum, ?_⟩
    exact require_bind_eq_ok_iff.mpr ⟨decide_eq_true inside, rfl⟩

/-- A granule agrees with the chunk that covers it exactly if it is in use and the chunk is not free, or
neither. -/
theorem agree_eq_ok_iff {cover : Covering} {inUse : Bool} :
    cover.agree inUse = .ok () ↔ inUse = !cover.header.isFree := by
  unfold Covering.agree
  cases inUse <;> cases cover.header.isFree <;> simp [require]

/-- The check passes from a granule on if a chunk covers the granule and agrees with it, and the check
passes from the next one on. -/
theorem auditFrom_step_iff (regular : map.Regular) (stopLe : stop ≤ map.words)
    (whole : offset % map.granule = 0) (below : offset < stop) {covering : Option Covering} :
    map.auditFrom first stop headerAt offset covering = .ok () ↔
      ∃ cover, Occupancy.cover first stop headerAt offset covering (map.marksStart offset) = .ok cover ∧
        map.marksInUse offset = !cover.header.isFree ∧
          map.auditFrom first stop headerAt (offset + map.granule) (some cover) = .ok () := by
  have inMap : offset < map.words := Nat.lt_of_lt_of_le below stopLe
  have inRoom := regular.position_lt whole inMap
  have isPosition := (position_ensures whole inMap).eq_ok fun _ same => same
  have isStart := (map.starts.get_ensures
    (Nat.lt_of_lt_of_le inRoom regular.starts_room)).eq_ok fun _ same => same
  have isInUse := (map.inUse.get_ensures
    (Nat.lt_of_lt_of_le inRoom regular.inUse_room)).eq_ok fun _ same => same
  rw [auditFrom, if_pos below, isPosition]
  change (map.starts.get (offset / map.granule) >>= _) = _ ↔ _
  rw [isStart]
  change (Occupancy.cover first stop headerAt offset covering (map.marksStart offset) >>= _) = _ ↔ _
  rw [bind_eq_ok_iff]
  refine exists_congr fun cover => and_congr_right fun _ => ?_
  rw [isInUse]
  change (cover.agree (map.marksInUse offset) >>= _) = _ ↔ _
  rw [bind_eq_ok_iff]
  constructor
  · exact fun ⟨_, agreed, passed⟩ => ⟨agree_eq_ok_iff.mp agreed, passed⟩
  · exact fun ⟨agreed, passed⟩ => ⟨(), agree_eq_ok_iff.mpr agreed, passed⟩

/-- The check passes from a marked start on if it is where the chunk before it ends and a row is shown
from there, provided that the check of the granules after it finds how the chunk goes on. -/
theorem auditFrom_marked_iff (regular : map.Regular) (stopLe : stop ≤ map.words)
    (whole : offset % map.granule = 0) (below : offset < stop) (marked : map.marksStart offset = true)
    {covering : Option Covering}
    (later : ∀ (chunk : Found) (cover : Covering),
      cover.stop = chunk.stop → cover.header = chunk.header →
      (map.auditFrom first stop headerAt (offset + map.granule) (some cover) = .ok () ↔
        map.Ends chunk (offset + map.granule) stop ∨
          map.GoesOn headerAt chunk (offset + map.granule) stop)) :
    map.auditFrom first stop headerAt offset covering = .ok () ↔
      covering.elim first Covering.stop = offset ∧
        ∃ before last, map.Accounts headerAt offset stop before last := by
  have counted : stop < wordLimit := Nat.lt_of_le_of_lt stopLe regular.counted
  rw [auditFrom_step_iff regular stopLe whole below, exists_accounts_iff, marked]
  unfold cover
  simp only [if_true, enter_eq_ok_iff counted]
  constructor
  · rintro ⟨_, ⟨expected, chunk, rfl, header, valid, inside, rfl⟩, inUse, passed⟩
    exact ⟨expected, below, chunk, rfl, ⟨whole, marked, header, inUse⟩, valid, inside,
      (later chunk _ rfl rfl).mp passed⟩
  · rintro ⟨expected, -, chunk, rfl, opens, valid, inside, continued⟩
    exact ⟨_, ⟨expected, chunk, rfl, opens.header, valid, inside, rfl⟩, opens.inUse,
      (later chunk _ rfl rfl).mpr continued⟩

/-- Inside of a chunk the check passes exactly if the chunk goes on to the end of the range, or to its
end and the row goes on there. -/
theorem auditFrom_inside_iff (regular : map.Regular) (stopLe : stop ≤ map.words)
    (stopWhole : stop % map.granule = 0) {cover : Covering} (whole : offset % map.granule = 0)
    (inside : offset ≤ stop) (isStop : cover.stop = chunk.stop)
    (isHeader : cover.header = chunk.header) :
    map.auditFrom first stop headerAt offset (some cover) = .ok () ↔
      map.Ends chunk offset stop ∨ map.GoesOn headerAt chunk offset stop := by
  have positive := map.granule_pos
  induction left : stop - offset using Nat.strong_induction_on generalizing offset chunk cover with
  | _ left ih =>
    rcases Nat.eq_or_lt_of_le inside with rfl | below
    · rw [auditFrom, if_neg (Nat.lt_irrefl offset)]
      exact ⟨fun _ => Or.inl ⟨extends_empty (Nat.le_refl offset), Or.inl rfl⟩, fun _ => rfl⟩
    · have nextWhole := add_whole whole (Nat.mod_self map.granule)
      have nextInside := add_granule_le whole stopWhole below
      cases marked : map.marksStart offset with
      | true =>
        rw [auditFrom_marked_iff regular stopLe whole below marked fun _ _ nextStop nextHeader =>
          ih _ (by omega) nextWhole nextInside nextStop nextHeader rfl]
        rw [ends_or_goesOn_marked_iff marked whole below, ← isStop]
        rfl
      | false =>
        rw [auditFrom_step_iff regular stopLe whole below, marked]
        have later : map.auditFrom first stop headerAt (offset + map.granule)
              (some { cover with granule := cover.granule + 1 }) = .ok () ↔
            map.Ends chunk (offset + map.granule) stop ∨
              map.GoesOn headerAt chunk (offset + map.granule) stop :=
          ih _ (by omega) nextWhole nextInside isStop isHeader rfl
        rw [ends_or_goesOn_unmarked_iff marked whole below nextInside, ← later, ← isStop, ← isHeader]
        change (∃ after, (require (offset < cover.stop) _ >>= _) = _ ∧ _) ↔ _
        simp only [require_bind_eq_ok_iff, decide_eq_true_eq]
        constructor
        · rintro ⟨after, ⟨further, same⟩, inUse, passed⟩
          cases same
          exact ⟨further, inUse, passed⟩
        · exact fun ⟨further, inUse, passed⟩ => ⟨_, ⟨further, rfl⟩, inUse, passed⟩

/-- The check of a range passes exactly if the map shows a row from its start on. -/
theorem audit_eq_ok_iff (regular : map.Regular) (stopLe : stop ≤ map.words)
    (stopWhole : stop % map.granule = 0) (firstWhole : first % map.granule = 0) (below : first < stop) :
    map.audit first stop headerAt = .ok () ↔
      ∃ before last, map.Accounts headerAt first stop before last := by
  unfold audit
  cases marked : map.marksStart first with
  | true =>
    have nextWhole := add_whole firstWhole (Nat.mod_self map.granule)
    have nextInside := add_granule_le firstWhole stopWhole below
    rw [auditFrom_marked_iff regular stopLe firstWhole below marked fun _ _ nextStop nextHeader =>
      auditFrom_inside_iff regular stopLe stopWhole nextWhole nextInside nextStop nextHeader]
    exact and_iff_right rfl
  | false =>
    rw [auditFrom_step_iff regular stopLe firstWhole below, marked]
    constructor
    · intro ⟨_, covered, _⟩
      cases covered
    · intro ⟨before, last, accounts⟩
      have start := accounts.first_marked.2.1
      rw [marked] at start
      cases start

/-- Whatever the headers are, the check of a range passes exactly on the rows that `Accounts` describes:
chunks that follow each other from the start of the range, each marked as a start and in use unless it is
free, of which only the last one may be empty or end elsewhere than its marks. Such a row is an exact
tiling, and the only one, if the size of the last chunk is a positive multiple of the granule, and
otherwise there is none. -/
theorem audit_tiles (regular : map.Regular) (stopLe : stop ≤ map.words)
    (stopWhole : stop % map.granule = 0) (firstWhole : first % map.granule = 0) (below : first < stop) :
    (map.audit first stop headerAt = .ok () ↔
        ∃ before last, map.Accounts headerAt first stop before last) ∧
      ∀ before last, map.Accounts headerAt first stop before last → ∀ row,
        (map.Tiled headerAt first row stop ↔
          row = before ++ [last] ∧ 0 < last.size ∧ last.size % map.granule = 0) :=
  ⟨audit_eq_ok_iff regular stopLe stopWhole firstWhole below,
    fun _ _ accounts _ => accounts.tiled_iff stopWhole⟩

/-- A map of two granules that are free, of which only the first one is a start. -/
def twoFree : Occupancy := ⟨48, 24, ⟨#[1]⟩, ⟨#[0]⟩, by decide⟩

/-- The header of a free chunk whose size is not fixed. -/
def freeOf (size : UInt64) : Header :=
  ⟨Header.alive, Kind.humongous.code, false, Origin.normal.code, true, size⟩

/-- The map of two granules is regular. -/
theorem twoFree_regular : twoFree.Regular := ⟨rfl, by decide, by decide, by decide⟩

/-- A chunk that ends in the second granule is accepted. -/
theorem twoFree_accounts (size : UInt64) (above : 24 < size.toNat) (inside : size.toNat ≤ 48) :
    twoFree.Accounts (fun _ => .ok (freeOf size)) 0 48 [] ⟨0, freeOf size⟩ where
  front := rfl
  valid := List.forall_mem_singleton.mpr ⟨rfl, rfl, Or.inl rfl⟩
  opens := ⟨rfl, show twoFree.marksStart 0 = true by decide, rfl,
    show twoFree.marksInUse 0 = false by decide⟩
  extends_ := by
    have marks : ∀ offset < 48, 24 ≤ offset →
        twoFree.marksStart offset = false ∧ twoFree.marksInUse offset = false := by decide
    exact ⟨fun offset _ lower upper => (marks offset upper lower).1,
      fun offset _ lower upper => (marks offset upper lower).2⟩
  start_lt := show 0 < 48 by decide
  stop_le := by
    change 0 + size.toNat ≤ 48
    omega
  reaches := by
    right
    change 48 < 0 + size.toNat + 24
    omega

/-- A chunk of both granules is accepted, and it alone tiles them. -/
theorem twoFree_tiles : twoFree.audit 0 48 (fun _ => .ok (freeOf 48)) = .ok () ∧
    twoFree.Tiled (fun _ => .ok (freeOf 48)) 0 [⟨0, freeOf 48⟩] 48 := by
  have accounts := twoFree_accounts 48 (by decide) (by decide)
  obtain ⟨accepts, tiles⟩ := @audit_tiles twoFree (fun _ => .ok (freeOf 48)) 0 48 twoFree_regular
    (Nat.le_refl 48) rfl rfl (by decide)
  exact ⟨accepts.mpr ⟨_, _, accounts⟩, (tiles _ _ accounts _).mpr ⟨rfl, by decide, rfl⟩⟩

/-- A chunk that ends by its header at word 30 is accepted as the last one in 48 words, which no row
tiles. -/
theorem twoFree_short : twoFree.audit 0 48 (fun _ => .ok (freeOf 30)) = .ok () ∧
    ¬∃ row, twoFree.Tiled (fun _ => .ok (freeOf 30)) 0 row 48 := by
  have accounts := twoFree_accounts 30 (by decide) (by decide)
  refine ⟨?_, fun ⟨row, tiled⟩ => ?_⟩
  · exact (audit_eq_ok_iff twoFree_regular (Nat.le_refl 48) rfl rfl (by decide)).mpr ⟨_, _, accounts⟩
  · obtain ⟨-, -, sizeWhole⟩ := (accounts.tiled_iff rfl).mp tiled
    revert sizeWhole
    decide

end Occupancy

end CollectorMemory
