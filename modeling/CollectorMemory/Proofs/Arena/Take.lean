import CollectorMemory.Proofs.Arena.Sound
import CollectorMemory.Proofs.Pool.Picking

/-!
# Taking chunks from an arena

A request that the pool can serve takes a chunk out of it, after splitting a larger one if there is
none of its kind. Of the parts of a split chunk the first is at the head of the list of its kind, so
that is the chunk that is taken. All this needs a stock for every node and nothing more; where the
arena is sound, it is sound afterwards.
-/

namespace CollectorMemory

variable {excuse : Prop} {uses : Nat} {list list' : NodeList} {pool middle pool' : Pool}
  {held : List Chunk} {node node' : Node} {chunk free area larger : Chunk} {row after : List Block}
  {kind target : Kind} {size : Nat}

/-- The kinds above a kind are of fixed size and larger. -/
theorem Kind.of_mem_above {larger : Kind} (above : larger ∈ target.above) :
    larger ≠ .humongous ∧ target.code < larger.code := by
  cases target <;> cases larger <;> simp [Kind.above, Kind.code] at above ⊢

/-- The kinds above a kind are in order. -/
theorem Kind.above_ordered (kind : Kind) :
    kind.above.Pairwise fun left right => left.code ≤ right.code := by
  cases kind <;> simp [Kind.above, Kind.code]

/-- The node of a chunk that belongs to one. -/
theorem nodeOf_ensures (ordered : list.Ordered) (member : node ∈ list.nodes.toList)
    (container : chunk.container = node.id) :
    Ensures excuse (Pool.nodeOf list chunk) fun found => found = node := by
  obtain ⟨front, back, split⟩ := List.append_of_mem member
  unfold Pool.nodeOf
  rw [container, ordered.node?_eq split]
  rfl

/-- A free chunk that was selected for a request and is out of the list of its kind. It is at the start
of an area, the free chunk that was there before, which may have been split in the node. -/
structure Selected (uses : Nat) (kind : Kind) (size : Nat) (held : List Chunk) (pool : Pool)
    (node : Node) (row : List Block) (middle pool' : Pool) (node' : Node) (after : List Block)
    (area free : Chunk) : Prop where
  /-- The chunk is the one that the request picks. -/
  picks : pool.Picks kind size area free pool'.chunks
  /-- The node had a stock. -/
  before : Stock uses pool node held row
  /-- The node has a stock while the chunk is still in the pool. -/
  stock : Stock uses middle node' held after
  /-- What is held is spared. -/
  steady : Steady held pool node middle node'
  /-- The chunk is out of the list of its kind. -/
  without : middle.Without pool' [free]
  /-- The chunk belongs to the node. -/
  container : free.container = node.id
  /-- The chunk keeps to the area. -/
  inside : area.bottom ≤ free.bottom ∧ free.stop ≤ area.stop
  /-- Outside of the area the node stays the same. -/
  same : ∀ offset, offset < area.bottom ∨ area.stop ≤ offset → node.SameAt node' offset
  /-- A coalesced row is coalesced except at the chunk. -/
  coalesced : Coalesced node.sizes row node.top →
    CoalescedExceptAt node'.sizes after node'.top free.bottom

/-- A free chunk that was taken for a request and is in use. -/
structure Taken (uses : Nat) (kind : Kind) (size : Nat) (held : List Chunk) (pool : Pool)
    (node : Node) (row : List Block) (pool' : Pool) (node' : Node) (after : List Block)
    (area free : Chunk) : Prop where
  /-- The chunk is the one that the request picks. -/
  picks : pool.Picks kind size area free pool'.chunks
  /-- The chunk answers the request. -/
  answers : free.Answers kind size
  /-- The node had a stock. -/
  before : Stock uses pool node held row
  /-- The node has a stock with the chunk. -/
  stock : Stock uses pool' node' (free.withFree false :: held) after
  /-- What is held is spared. -/
  steady : Steady held pool node pool' node'
  /-- The chunk belongs to the node. -/
  container : free.container = node.id
  /-- Outside of the area the node stays the same. -/
  same : ∀ offset, offset < area.bottom ∨ area.stop ≤ offset → node.SameAt node' offset
  /-- A coalesced row is coalesced again. -/
  coalesced : Coalesced node.sizes row node.top → Coalesced node'.sizes after node'.top

/-- Something is done in one node of a list. -/
def NodeList.AtNode (list list' : NodeList) (done : Node → Node → Prop) : Prop :=
  ∃ front node back node', list.nodes.toList = front ++ node :: back ∧
    list' = { list with nodes := (front ++ node' :: back).toArray } ∧ done node node'

/-- A chunk of an arena was selected for a request. -/
def Arena.Selects (uses : Nat) (kind : Kind) (size : Nat) (held : List Chunk) (list : NodeList)
    (pool : Pool) (list' : NodeList) (pool' : Pool) (chunk : Chunk) : Prop :=
  list.AtNode list' fun node node' => ∃ row middle after area,
    Selected uses kind size held pool node row middle pool' node' after area chunk

/-- A free chunk that suffices can be selected as it is. -/
theorem Arena.Stocked.selects (stocked : Arena.Stocked uses ⟨list, pool⟩ held)
    (least : Least (Chunk.freeOrder kind) (Chunk.Suffices kind size) pool.chunks chunk)
    (without : pool.Without pool' [chunk]) :
    Arena.Selects uses kind size held list pool list pool' chunk := by
  obtain ⟨node, inList, isNode⟩ := stocked.live chunk (List.mem_append_left held least.member)
  obtain ⟨row, stock⟩ := stocked.stock node inList
  obtain ⟨front, back, split⟩ := List.append_of_mem inList
  have unchanged : list = { list with nodes := (front ++ node :: back).toArray } := by
    change list.nodes.toList = _ at split
    rw [← split, Array.toArray_toList]
  exact ⟨front, node, back, node, split, unchanged, row, pool, row, chunk, {
    picks := .whole least without.perm
    before := stock
    stock := stock
    steady := Steady.refl stock.carved.toRegular
    without := without
    container := isNode.symm
    inside := ⟨Nat.le_refl _, Nat.le_refl _⟩
    same := fun offset _ => Node.SameAt.refl node offset
    coalesced := fun coalesced => coalesced.exceptAt chunk.bottom }⟩

/-- The first part of a chunk that was divided is selected where the pool had no chunk of its kind: it is
at the head of the list of its kind once all parts were put into the pool. -/
theorem Stock.selected_of_split {front back : List Block} {first : Chunk} {pieces : List Chunk}
    {rest placed : Pool} (stock : Stock uses pool node held (front ++ [larger.block] ++ back))
    (divided : node.Divided node' front back larger first pieces)
    (without : pool.Without rest [larger]) (container : larger.container = node.id)
    (isPlaced : Pool.Placed { rest with count := rest.count + pieces.length } placed pieces)
    (firstKind : first.kind = target) (fixed : target ≠ .humongous)
    (noneThere : pool.ofKind target = []) (isAbove : larger.kind ∈ target.above)
    (least : Least (Chunk.freeOrder larger.kind) (fun other => other.kind = larger.kind) pool.chunks
      larger)
    (smallest : ∀ other ∈ pool.chunks, other.kind ∈ target.above →
      larger.kind.code ≤ other.kind.code) :
    (placed.push first).ofKind target = first :: placed.ofKind target ∧
      Selected uses target size held pool node (front ++ [larger.block] ++ back) (placed.push first)
        ((placed.push first).withKind target (placed.ofKind target)) node'
        (front ++ (first :: pieces).map Chunk.block ++ back) larger first := by
  obtain ⟨notHumongous, _⟩ := Kind.of_mem_above isAbove
  obtain ⟨stockAfter, steady, except⟩ := stock.of_split divided without container notHumongous isPlaced
  have inserted : (placed.push first).ofKind target = first :: placed.ofKind target := by
    unfold Pool.push
    rw [Pool.ofKind_withKind, firstKind, if_pos rfl]
    exact insertOrdered_first (stock.poolSound.first_lt divided without isPlaced noneThere fixed)
  have remains : (placed.ofKind target).Sublist ((placed.push first).ofKind target) := by
    rw [inserted]
    exact List.sublist_cons_self first _
  obtain ⟨perm, restFiled, _⟩ := Pool.removed_perm stockAfter.poolSound.filed
    (List.Perm.of_eq inserted) remains
  have freed : ((placed.push first).withKind target (placed.ofKind target)).chunks.Perm
      (pieces ++ rest.chunks) := by
    have fresh := stock.first_fresh divided without container isPlaced
    obtain ⟨pushed, _⟩ := Pool.push_perm isPlaced.filed fresh
    exact (perm.symm.trans pushed).cons_inv.trans isPlaced.perm
  have noneOfKind : ∀ other ∈ pool.chunks, other.kind ≠ target := by
    intro other member isKind
    have inList := stock.poolSound.filed.mem_ofKind member
    rw [isKind, noneThere] at inList
    exact List.not_mem_nil inList
  have splits := divided.splits firstKind fixed container
  have words := splits.words
  have bottom := divided.first_bottom
  have firstStop : first.stop = first.bottom + first.size := rfl
  have largerStop : larger.stop = larger.bottom + larger.size := rfl
  refine ⟨inserted, {
    picks := .part fixed noneOfKind isAbove least smallest (by rw [stock.sizes]; exact splits)
      without.perm freed
    before := stock
    stock := stockAfter
    steady := steady
    without := ⟨Pool.alike_withKind, perm, restFiled, Pool.words_withKind, Pool.count_withKind⟩
    container := divided.owned.container
    inside := by omega
    same := divided.same
    coalesced := except }⟩

/-- Splitting the first larger chunk selects its first part for the list of the target kind; nothing
is split only if the pool holds no larger chunk of a fixed size. -/
theorem Arena.Stocked.splitLarger_ensures (stocked : Arena.Stocked uses ⟨list, pool⟩ held)
    (fixed : list.sizes.fixedSize target = .ok size) (noneThere : pool.ofKind target = []) :
    Ensures excuse (pool.splitLarger list target).outcome fun result =>
      match result with
      | none => ∀ chunk ∈ pool.chunks, chunk.kind ∉ target.above
      | some (pool', list') => ∃ first rest, pool'.ofKind target = first :: rest ∧
          Arena.Selects uses target size held list pool list' (pool'.withKind target rest) first := by
  have filed : pool.Filed := stocked.poolSound.filed
  unfold Pool.splitLarger
  cases found : pool.firstOf? target.above with
  | none => exact Pool.firstOf?_eq_none filed found
  | some result =>
    obtain ⟨rest, larger⟩ := result
    obtain ⟨without, isAbove⟩ := Pool.firstOf?_eq_some filed found
    obtain ⟨least, smallest⟩ := filed.least_firstOf? target.above_ordered found
    obtain ⟨notHumongous, below⟩ := Kind.of_mem_above isAbove
    obtain ⟨node, inList, isNode⟩ :=
      stocked.live larger (List.mem_append_left held least.member)
    have container : larger.container = node.id := isNode.symm
    obtain ⟨nodeRow, stock⟩ := stocked.stock node inList
    have nodeSizes : node.sizes = list.sizes := stocked.nodeSizes node inList
    have isFree : larger.isFree = true := (stock.poolSound.holds larger least.member).free
    obtain ⟨rowFront, rowBack, rfl⟩ :=
      exists_around (stock.mem_row (List.mem_append_left held least.member) container)
    obtain ⟨front, back, split⟩ := List.append_of_mem inList
    refine ensures_note ?_
    refine Ensures.bindRun (nodeOf_ensures stocked.ordered inList container) ?_
    intro nodeFound same
    subst nodeFound
    refine Ensures.bindRun (stock.carved.split_ensures isFree notHumongous below
      (by rw [nodeSizes]; exact fixed)) ?_
    rintro ⟨node', first, pieces⟩ ⟨firstKind, divided⟩
    refine Ensures.bindRun (ensures_checkIf fun _ => divided.audit_ensures List.mem_cons_self) ?_
    intro _ _
    refine Ensures.bindRun (Count.add_ensures fun _ => stock.pieces_counted divided without) ?_
    rintro count ⟨rfl, _⟩
    refine Ensures.bindRun (stock.pushPieces_ensures divided without container) ?_
    intro placed isPlaced
    obtain ⟨isList, selected⟩ := stock.selected_of_split divided without container isPlaced firstKind
      (ChunkSizes.ne_humongous_of_fixedSize fixed) noneThere isAbove least smallest
    exact ⟨first, placed.ofKind target, isList, front, node, back, node', split,
      stocked.ordered.withNode_eq split divided.alike.id, _, _, _, larger, selected⟩

/-- Take a free chunk of a kind of fixed size out of its list, after splitting a larger one if there is
none. -/
def Pool.selectFixed (pool : Pool) (list : NodeList) (kind : Kind) :
    Run (Option (Pool × NodeList × Chunk)) :=
  match pool.firstOf? [kind] with
  | some (pool, chunk) => return some (pool, list, chunk)
  | none => do
    match ← pool.splitLarger list kind with
    | none => return none
    | some (pool, list) => return (pool.firstOf? [kind]).map fun (pool, chunk) => (pool, list, chunk)

/-- A free chunk of a kind of fixed size is selected unless the pool holds none of the kind and none of
a larger fixed size. -/
theorem Arena.Stocked.selectFixed_ensures (stocked : Arena.Stocked uses ⟨list, pool⟩ held)
    (fixed : list.sizes.fixedSize kind = .ok size) :
    Ensures excuse (pool.selectFixed list kind).outcome fun result =>
      match result with
      | none => ∀ chunk ∈ pool.chunks, chunk.kind ∉ kind :: kind.above
      | some (pool', list', chunk) =>
          Arena.Selects uses kind size held list pool list' pool' chunk := by
  have filed : pool.Filed := stocked.poolSound.filed
  unfold Pool.selectFixed
  cases first : pool.firstOf? [kind] with
  | some result =>
    obtain ⟨rest, chunk⟩ := result
    obtain ⟨without, inKinds⟩ := Pool.firstOf?_eq_some filed first
    obtain ⟨least, _⟩ := filed.least_firstOf? (List.pairwise_singleton _ _) first
    have isKind : chunk.kind = kind := List.mem_singleton.mp inKinds
    rw [isKind] at least
    have notHumongous := ChunkSizes.ne_humongous_of_fixedSize fixed
    exact stocked.selects ⟨least.member, ⟨isKind, fun humongous => absurd humongous notHumongous⟩,
      fun other member suffices_ => least.least other member suffices_.1⟩ without
  | none =>
    have noneOfKind := Pool.firstOf?_eq_none filed first
    have noneThere : pool.ofKind kind = [] := by
      unfold Pool.firstOf? at first
      split at first
      · cases first
      · assumption
    refine Ensures.bindRun (stocked.splitLarger_ensures fixed noneThere) ?_
    rintro (_ | ⟨pool', list'⟩) split
    · intro chunk member inKinds
      rcases List.mem_cons.mp inKinds with isKind | isAbove
      · exact noneOfKind chunk member (List.mem_singleton.mpr isKind)
      · exact split chunk member isAbove
    · obtain ⟨head, rest, isList, selects⟩ := split
      have taken : pool'.firstOf? [kind] = some (pool'.withKind kind rest, head) := by
        unfold Pool.firstOf?
        rw [isList]
      change Ensures excuse (.ok ((pool'.firstOf? [kind]).map _)) _
      rw [taken]
      exact selects

/-- A request selects a free chunk unless the pool holds none that serves it. -/
theorem Arena.Stocked.select_ensures (stocked : Arena.Stocked uses ⟨list, pool⟩ held)
    (suits : list.sizes.Suits kind size) :
    Ensures excuse (pool.select list size).outcome fun result =>
      match result with
      | none => ∀ chunk ∈ pool.chunks, ¬chunk.block.Serves kind size
      | some (pool', list', chunk) =>
          Arena.Selects uses kind size held list pool list' pool' chunk := by
  have poolSizes : pool.sizes = list.sizes := stocked.poolSizes
  have filed : pool.Filed := stocked.poolSound.filed
  unfold Pool.select
  refine Ensures.bindRun (ensures_eq (by
    rw [poolSizes]
    exact ChunkSizes.kindOfSize_eq_ok_iff.mpr suits)) ?_
  intro found same
  subst same
  by_cases isHumongous : found = .humongous
  · subst isHumongous
    rw [if_pos (show Kind.humongous.isHumongous = true from rfl)]
    cases taken : takeFirst? (fun chunk => decide (size ≤ chunk.size)) pool.humongous with
    | none =>
      rintro chunk member ⟨isHumongous, enough⟩
      have inList := filed.mem_ofKind member
      rw [show chunk.kind = .humongous from isHumongous] at inList
      obtain ⟨_, _, found⟩ := @exists_takeFirst? chunk _ (fun chunk => decide (size ≤ chunk.size))
        inList (decide_eq_true enough)
      cases taken.symm.trans found
    | some result =>
      obtain ⟨chunk, rest⟩ := result
      have without : pool.Without (pool.withKind .humongous rest) [chunk] ∧ chunk.kind = .humongous :=
        Pool.takeFirst?_without filed taken
      have least := filed.least_takeFirst? (show takeFirst? _ (pool.ofKind .humongous) = _ from taken)
      exact stocked.selects ⟨least.member,
        ⟨least.passes.1, fun _ => of_decide_eq_true least.passes.2⟩,
        fun other member suffices_ => least.least other member
          ⟨suffices_.1, decide_eq_true (suffices_.2 rfl)⟩⟩ without.1
  · have servesIff : ∀ chunk : Chunk,
        chunk.block.Serves found size ↔ chunk.kind ∈ found :: found.above := by
      intro chunk
      unfold Block.Serves
      rw [if_neg isHumongous]
      rfl
    rw [if_neg (by simpa [Kind.isHumongous] using isHumongous)]
    change Ensures excuse (pool.selectFixed list found).outcome _
    simp only [servesIff]
    exact stocked.selectFixed_ensures (suits.fixedSize isHumongous)

/-- A chunk that is selected answers the request. -/
theorem Selected.answers
    (selected : Selected uses kind size held pool node row middle pool' node' after area free)
    (suits : pool.sizes.Suits kind size) : free.Answers kind size := by
  have isFree : free ∈ middle.chunks := selected.without.perm.mem_iff.mpr List.mem_cons_self
  have holds := selected.stock.poolSound.holds free isFree
  obtain ⟨isKind, enough⟩ := selected.picks.suffices
  refine ⟨isKind, ?_, holds.empty⟩
  by_cases humongous : kind = .humongous
  · exact enough humongous
  · have held := holds.sound.block.suits
    rw [selected.steady.poolAlike.sizes, show free.block.kind = kind from isKind] at held
    exact Nat.le_of_eq (suits.size_eq held humongous)

/-- A request takes the free chunk that it picks and puts it in use, unless the pool holds none that
serves the request. -/
theorem Arena.Stocked.take_ensures (stocked : Arena.Stocked uses ⟨list, pool⟩ held)
    (suits : list.sizes.Suits kind size) :
    Ensures excuse (pool.take list size).outcome fun result =>
      match result with
      | none => ∀ chunk ∈ pool.chunks, ¬chunk.block.Serves kind size
      | some (pool', list', chunk) => list.AtNode list' fun node node' => ∃ row after area free,
          chunk = free.withFree false ∧
          Taken uses kind size held pool node row pool' node' after area free := by
  unfold Pool.take
  refine Ensures.bindRun (stocked.select_ensures suits) ?_
  rintro (_ | ⟨rest, list', chunk⟩) selects
  · exact selects
  obtain ⟨front, node, back, found, split, rfl, row, middle, after, area, selected⟩ := selects
  have stock := selected.stock
  have without := selected.without
  have answers := selected.answers (by rw [stocked.poolSizes]; exact suits)
  have foundId : found.id = node.id := selected.steady.nodeAlike.id
  have foundContainer : chunk.container = found.id := selected.container.trans foundId.symm
  have isFree : chunk ∈ middle.chunks := without.perm.mem_iff.mpr List.mem_cons_self
  obtain ⟨rowFront, rowBack, rfl⟩ :=
    exists_around (stock.mem_row (List.mem_append_left held isFree) foundContainer)
  have holds := stock.poolSound.holds chunk isFree
  have owned : found.Owns chunk :=
    ⟨foundContainer, holds.isClass.trans stock.isClass, by rw [← stock.sizes]; exact holds.sound⟩
  obtain ⟨wordsLe, positive⟩ := stock.poolSound.still_counted without
  have orderedAfter := stocked.ordered.replace split foundId
  refine Ensures.bindRun (Pool.countRemoved_ensures wordsLe positive) ?_
  rintro counted rfl
  refine Ensures.bindRun (nodeOf_ensures orderedAfter
    (List.mem_append_right front List.mem_cons_self) foundContainer) ?_
  rintro _ rfl
  refine Ensures.bindRun (stock.carved.setInUse_ensures owned) ?_
  rintro ⟨tagged, used⟩ ⟨isUsed, alike, top, inUse, carved, same, _⟩
  refine ensures_note ?_
  have addedAlike : Node.Alike _ tagged.addInUse :=
    ⟨alike.id, alike.sizes, alike.reserved, alike.audited, alike.committed, alike.map⟩
  have sameAdded : ∀ offset, offset < chunk.bottom ∨ chunk.stop ≤ offset →
      Node.SameAt _ tagged.addInUse offset := fun offset apart =>
    ⟨(same offset apart).word, (same offset apart).starts, (same offset apart).inUse⟩
  obtain ⟨stockAfter, steadyAfter, coalesced⟩ := stock.of_take without foundContainer isUsed
    addedAlike top (show tagged.chunksInUse + 1 = _ by rw [inUse]) (carved.with_chunksInUse _)
    sameAdded rfl
  refine Ensures.bindRun stockAfter.auditWith_ensures ?_
  intro _ _
  have inside := selected.inside
  rw [orderedAfter.withNode_eq (show _ = front ++ _ :: back from rfl) addedAlike.id]
  exact ⟨front, node, back, tagged.addInUse, split, rfl, row, _, area, chunk, isUsed, {
    picks := selected.picks
    answers := answers
    before := selected.before
    stock := by rw [← show used = chunk.withFree false from isUsed]; exact stockAfter
    steady := selected.steady.trans steadyAfter
    container := selected.container
    same := fun offset outside => (selected.same offset outside).trans selected.steady.nodeAlike
      (sameAdded offset (by omega))
    coalesced := fun settled => coalesced (selected.coalesced settled) }⟩

/-- A chunk that a pool gives out answers the request, is in use afterwards, and the arena is sound with
it; the pool gives one out exactly if it holds one that serves the request. -/
theorem Arena.Sound.take_ensures (sound : Arena.Sound uses ⟨list, pool⟩ held)
    (suits : list.sizes.Suits kind size) :
    Ensures excuse (pool.take list size).outcome fun result =>
      match result with
      | none => ∀ chunk ∈ pool.chunks, ¬chunk.block.Serves kind size
      | some (pool', list', chunk) => (∃ chunk ∈ pool.chunks, chunk.block.Serves kind size) ∧
          chunk.Answers kind size ∧
          Arena.Follows uses 0 held (chunk :: held) ⟨list, pool⟩ ⟨list', pool'⟩ := by
  apply (sound.stocked.take_ensures suits).mono
  rintro (_ | ⟨pool', list', chunk⟩) result
  · exact result
  obtain ⟨front, node, back, node', split, rfl, row, after, area, free, rfl, taken⟩ := result
  have member : node ∈ list.nodes.toList := by
    rw [split]
    exact List.mem_append_right front List.mem_cons_self
  obtain ⟨settledRow, settled⟩ := sound.settled node member
  have sameRow := taken.before.row_unique settled.toStock
  subst sameRow
  have answers := taken.answers
  have alike := taken.steady.nodeAlike
  exact ⟨taken.picks.serves, ⟨answers.kind, answers.size_le, answers.empty⟩, {
    sound := sound.update split alike.id alike.sizes alike.reserved taken.steady.poolAlike
      taken.steady.elsewhere (List.Perm.of_eq (outside_cons_self taken.container))
      (taken.stock.settled (taken.coalesced settled.coalesced))
    spares := Arena.Spares.of_node sound.ordered split alike.id alike.reserved taken.steady.spared
    number := Nat.le_refl _
    same := fun _ => ⟨rfl, Nat.le_of_eq (NodeList.total_replace split alike.reserved)⟩ }⟩

end CollectorMemory
