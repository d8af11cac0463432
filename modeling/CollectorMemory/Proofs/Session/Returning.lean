import CollectorMemory.Proofs.Pool.Canonical
import CollectorMemory.Proofs.Session.Safety

/-!
# The order of returns does not matter

Users put some of their chunks back one after the other. Free neighbours are merged each time, and so
other chunks are merged in between for every order. In the end the nodes have the same bounds, counts
and marks, and the free pools have the same chunks, whichever order it was. This holds in every session
that a run reaches.
-/

namespace CollectorMemory

variable {excuse : Prop} {uses : Nat} {base arena left right : Arena} {rows : NodeId → List Block}
  {held held' rest chunks : List Chunk} {chunk : Chunk} {node node' : Node} {pool' : Pool}

/-- Two arenas whose nodes have the same bounds, counts and marks and whose pools have the same
chunks. -/
structure Arena.Agrees (left right : Arena) : Prop where
  /-- Of the lists of nodes at most the nodes differ. -/
  list : right.list = { left.list with nodes := right.list.nodes }
  /-- The nodes are twins. -/
  nodes : List.Forall₂ Node.Twin left.list.nodes.toList right.list.nodes.toList
  /-- The free chunks of every kind are at the same places and of the same sizes. -/
  entries : ∀ kind, ((left.pool.ofKind kind).map Chunk.entry).Perm
    ((right.pool.ofKind kind).map Chunk.entry)
  /-- There are as many free chunks. -/
  count : right.pool.count = left.pool.count
  /-- There are as many free words. -/
  words : right.pool.words = left.pool.words

/-- Two allocators whose arenas agree. -/
structure Allocator.Agrees (left right : Allocator) : Prop where
  /-- The options are the same. -/
  options : right.options = left.options
  /-- The arenas of every space agree. -/
  arena : ∀ space, (left.arena space).Agrees (right.arena space)

/-- Put chunks back one after the other. -/
def Allocator.putBackEach (allocator : Allocator) (chunks : List Chunk) : Except Fault Allocator :=
  chunks.foldlM (fun allocator chunk => (allocator.putBack chunk).outcome) allocator

/-- An arena whose nodes settled again after some chunks were put back, and the rows that the nodes
had before. -/
structure Arena.Resettled (uses : Nat) (base : Arena) (rows : NodeId → List Block) (arena : Arena)
    (held : List Chunk) : Prop where
  /-- The arena is sound. -/
  sound : Arena.Sound uses arena held
  /-- Of the list of nodes at most the nodes change. -/
  list : arena.list = { base.list with nodes := arena.list.nodes }
  /-- The nodes keep their handles. -/
  ids : arena.list.nodes.toList.map Node.id = base.list.nodes.toList.map Node.id
  /-- The stock of every node settled again. -/
  nodes : ∀ node ∈ arena.list.nodes.toList, ∃ origin ∈ base.list.nodes.toList,
    Node.Resettled uses origin (rows node.id) arena.pool node held

/-- Two lists are related element by element if they have the same keys and elements with the same key
are related. -/
theorem forall₂_of_keys {α κ : Type} {key : α → κ} {related : α → α → Prop} {left right : List α}
    (keys : left.map key = right.map key)
    (each : ∀ first ∈ left, ∀ second ∈ right, key first = key second → related first second) :
    List.Forall₂ related left right := by
  induction left generalizing right with
  | nil =>
    rw [List.map_nil, eq_comm, List.map_eq_nil_iff] at keys
    rw [keys]
    exact List.Forall₂.nil
  | cons head tail ih =>
    cases right with
    | nil => cases keys
    | cons other others =>
      rw [List.map_cons, List.map_cons, List.cons.injEq] at keys
      apply List.Forall₂.cons
      · exact each head List.mem_cons_self other List.mem_cons_self keys.1
      · exact ih keys.2 fun first inTail second inOthers =>
          each first (List.mem_cons_of_mem head inTail) second (List.mem_cons_of_mem other inOthers)

/-- A stock stays settled again where the chunks outside of a node stay. -/
theorem Node.Resettled.of_outside {id : NodeId} {origin : Node} {row : List Block} {pool : Pool}
    (resettled : Node.Resettled uses origin row pool node held) (differs : node.id ≠ id)
    (poolAlike : pool.Alike pool') (poolSound : pool'.Sound uses)
    (poolPerm : (outside id pool'.chunks).Perm (outside id pool.chunks))
    (heldPerm : (outside id held').Perm (outside id held)) :
    Node.Resettled uses origin row pool' node held' := by
  obtain ⟨after, settled, coarser⟩ := resettled.settled
  exact { resettled with
    settled := ⟨after, settled.of_outside differs poolAlike poolSound poolPerm heldPerm, coarser⟩ }

namespace Arena.Resettled

/-- The nodes of a sound arena are settled after no chunk was put back. -/
theorem of_sound (sound : Arena.Sound uses arena held) :
    ∃ rows, Arena.Resettled uses arena rows arena held := by
  have each : ∀ id, ∃ row, ∀ node ∈ arena.list.nodes.toList, node.id = id →
      Settled uses arena.pool node held row := by
    intro id
    by_cases known : ∃ node ∈ arena.list.nodes.toList, node.id = id
    · obtain ⟨node, member, isId⟩ := known
      obtain ⟨row, settled⟩ := sound.settled node member
      refine ⟨row, fun other otherMember otherId => ?_⟩
      rw [sound.ordered.eq_of_id otherMember member (otherId.trans isId.symm)]
      exact settled
    · exact ⟨[], fun node member isId => absurd ⟨node, member, isId⟩ known⟩
  choose rows settled using each
  exact ⟨rows, sound, rfl, rfl, fun node member =>
    ⟨node, member, .of_settled (settled node.id node member rfl)⟩⟩

/-- The order of the chunks that are held does not matter. -/
theorem of_perm (resettled : Arena.Resettled uses base rows arena held) (perm : held.Perm held') :
    Arena.Resettled uses base rows arena held' := by
  refine { resettled with sound := resettled.sound.of_perm perm, nodes := ?_ }
  intro node member
  obtain ⟨origin, inBase, again⟩ := resettled.nodes node member
  obtain ⟨after, settled, coarser⟩ := again.settled
  exact ⟨origin, inBase, { again with settled := ⟨after, settled.of_perm perm, coarser⟩ }⟩

/-- The nodes stay settled again where one of them settles in another state of its stock. -/
theorem update (resettled : Arena.Resettled uses base rows arena held)
    (member : node ∈ arena.list.nodes.toList) (steady : Steady chunks arena.pool node pool' node')
    (again : ∃ origin ∈ base.list.nodes.toList,
      Node.Resettled uses origin (rows node.id) pool' node' held')
    (elsewhere : (outside node.id held').Perm (outside node.id held)) :
    Arena.Resettled uses base rows ⟨arena.list.withNode node', pool'⟩ held' := by
  obtain ⟨origin, inBase, settledAgain⟩ := again
  obtain ⟨row, settled, _⟩ := settledAgain.settled
  have ordered := resettled.sound.ordered
  have sameId := steady.nodeAlike.id
  obtain ⟨front, back, split⟩ := List.append_of_mem member
  have isList := ordered.withNode_eq split sameId
  refine ⟨(resettled.sound.withNode member steady settled elsewhere).sound, ?_, ?_, ?_⟩
  · rw [isList, resettled.list]
  · rw [isList, ← resettled.ids, split]
    simp [sameId]
  · intro other inAfter
    rw [isList] at inAfter
    rcases (ordered.mem_replace split).mp inAfter with isNode | ⟨inList, differs⟩
    · rw [isNode, sameId]
      exact ⟨origin, inBase, settledAgain⟩
    · obtain ⟨otherOrigin, otherInBase, otherAgain⟩ := resettled.nodes other inList
      exact ⟨otherOrigin, otherInBase, otherAgain.of_outside differs steady.poolAlike
        settled.poolSound steady.elsewhere elsewhere⟩

/-- A handle of a node is that of a node before. -/
theorem exists_node_iff (resettled : Arena.Resettled uses base rows arena held) {id : NodeId} :
    (∃ node ∈ arena.list.nodes.toList, node.id = id) ↔
      ∃ node ∈ base.list.nodes.toList, node.id = id := by
  rw [← List.mem_map, ← List.mem_map, resettled.ids]

/-- Where there is no node there are no free chunks. -/
theorem within_eq_nil (resettled : Arena.Resettled uses base rows arena held) {id : NodeId}
    (unknown : ¬∃ node ∈ base.list.nodes.toList, node.id = id) :
    within id arena.pool.chunks = [] := by
  apply List.eq_nil_iff_forall_not_mem.mpr
  intro chunk member
  obtain ⟨inPool, container⟩ := mem_within.mp member
  obtain ⟨node, inList, isNode⟩ := resettled.sound.live chunk (List.mem_append_left held inPool)
  exact unknown (resettled.exists_node_iff.mp ⟨node, inList, isNode.trans container⟩)

/-- In whichever order chunks were put back, nodes with the same handle agree. -/
theorem agree_of_id (first : Arena.Resettled uses base rows left held)
    (second : Arena.Resettled uses base rows right held) (ordered : base.list.Ordered)
    (inLeft : node ∈ left.list.nodes.toList) (inRight : node' ∈ right.list.nodes.toList)
    (same : node.id = node'.id) :
    node.Twin node' ∧ ((within node.id left.pool.chunks).map Chunk.entry).Perm
      ((within node.id right.pool.chunks).map Chunk.entry) := by
  obtain ⟨origin, inBase, again⟩ := first.nodes node inLeft
  obtain ⟨origin', inBase', again'⟩ := second.nodes node' inRight
  have isId := again.alike.id
  have isId' := again'.alike.id
  have sameOrigin := ordered.eq_of_id inBase inBase' (isId.symm.trans (same.trans isId'))
  rw [← sameOrigin, ← same] at again'
  have agreed := again.agree again'
  rw [← isId] at agreed
  exact agreed

/-- In whichever order chunks were put back, the arenas agree. -/
theorem agree (first : Arena.Resettled uses base rows left held)
    (second : Arena.Resettled uses base rows right held) (ordered : base.list.Ordered) :
    left.Agrees right := by
  have keys := first.ids.trans second.ids.symm
  have each : ∀ id, ((within id left.pool.chunks).map Chunk.entry).Perm
      ((within id right.pool.chunks).map Chunk.entry) := by
    intro id
    by_cases known : ∃ node ∈ base.list.nodes.toList, node.id = id
    · obtain ⟨node, inLeft, isId⟩ := first.exists_node_iff.mpr known
      obtain ⟨node', inRight, isId'⟩ := second.exists_node_iff.mpr known
      rw [← isId]
      exact (first.agree_of_id second ordered inLeft inRight (isId.trans isId'.symm)).2
    · rw [first.within_eq_nil known, second.within_eq_nil known]
  have perm := entries_perm_of_within each
  have leftSound := first.sound.poolSound
  have rightSound := second.sound.poolSound
  obtain ⟨count, words⟩ := leftSound.numbers_eq rightSound perm
  refine ⟨?_, ?_, leftSound.filed.entries_perm rightSound.filed perm, count, words⟩
  · rw [first.list]
    exact second.list
  · apply forall₂_of_keys keys
    intro node inLeft node' inRight same
    exact (first.agree_of_id second ordered inLeft inRight same).1

end Arena.Resettled

namespace Allocator

variable {start allocator : Allocator} {rows : Space → NodeId → List Block}

/-- An allocator whose arenas settled again after some chunks were put back. -/
structure Resettled (uses : Nat) (start : Allocator) (rows : Space → NodeId → List Block)
    (allocator : Allocator) (held : List Chunk) : Prop where
  /-- The options stay. -/
  options : allocator.options = start.options
  /-- The arenas of every space settled again. -/
  arena : ∀ space, Arena.Resettled uses (start.arena space) (rows space) (allocator.arena space)
    (inSpace space held)

/-- Putting a chunk back settles the arenas again, without the chunk. -/
theorem Resettled.putBack_ensures
    (resettled : Resettled uses start rows allocator (chunk :: held))
    (bounded : ¬excuse → start.Bounded) :
    Ensures excuse (allocator.putBack chunk).outcome fun after =>
      Resettled uses start rows after held := by
  have here := resettled.arena chunk.container.space
  rw [inSpace_cons_self] at here
  obtain ⟨front, node, back, _, split, owned, _⟩ := here.sound.exists_node List.mem_cons_self
  have inList : node ∈ (allocator.arena chunk.container.space).list.nodes.toList := by
    rw [split]
    exact List.mem_append_right front List.mem_cons_self
  have found := here.sound.ordered.node?_eq split
  rw [← owned.container] at found
  obtain ⟨origin, inBase, again⟩ := here.nodes node inList
  obtain ⟨row, settled, coarser⟩ := again.settled
  have limits : ¬excuse → (allocator.arena chunk.container.space).list.Bounded := by
    intro hard
    obtain ⟨limit, nodeWords, granule, medium⟩ := (bounded hard).lists chunk.container.space
    rw [here.list]
    exact ⟨limit, nodeWords, granule, medium⟩
  apply (putBack_ensures_of_settled found settled (here.sound.room limits inList)
    owned.container).mono
  rintro after ⟨pool', node', row', rfl, settledAfter, steady, top, coarserAfter⟩
  refine ⟨options_withArena.trans resettled.options, fun space => ?_⟩
  by_cases isHere : space = chunk.container.space
  · subst isHere
    rw [arena_withArena_self]
    have settledAgain : Node.Resettled uses origin (rows chunk.container.space node.id)
        pool' node' (inSpace chunk.container.space held) :=
      ⟨again.alike.trans steady.nodeAlike, top.trans again.top, again.tiles, row', settledAfter,
        coarser.trans coarserAfter (Nat.le_of_eq again.top.symm)⟩
    exact here.update inList steady ⟨origin, inBase, settledAgain⟩
      (by rw [outside_cons_self owned.container])
  · have elsewhere := resettled.arena space
    rw [inSpace_cons_of_ne fun same => isHere same.symm] at elsewhere
    rw [arena_withArena_of_ne isHere]
    exact elsewhere

/-- Putting chunks back one after the other settles the arenas again, without the chunks. -/
theorem Resettled.putBackEach_ensures
    (resettled : Resettled uses start rows allocator (chunks ++ rest))
    (bounded : ¬excuse → start.Bounded) :
    Ensures excuse (allocator.putBackEach chunks) fun after =>
      Resettled uses start rows after rest := by
  unfold putBackEach
  induction chunks generalizing allocator with
  | nil => exact resettled
  | cons head tail ih =>
    rw [List.foldlM_cons]
    apply Ensures.bind (resettled.putBack_ensures bounded)
    intro next settledNext
    exact ih settledNext

/-- In whichever order some of the chunks that are held are put back, all of them can be, and the
outcomes agree. -/
theorem Sound.exists_agreeing {first second : List Chunk} (sound : allocator.Sound uses held)
    (bounded : allocator.Bounded) (isHeld : first ⊆ held) (distinct : first.Nodup)
    (same : first.Perm second) :
    ∃ left right, allocator.putBackEach first = .ok left ∧
      allocator.putBackEach second = .ok right ∧ left.Agrees right := by
  obtain ⟨part, isPart, sublist⟩ := List.subperm_of_subset distinct isHeld
  obtain ⟨rest, split⟩ := sublist.exists_perm_append
  have order := split.trans (isPart.append_right rest)
  choose rows resettled using fun space =>
    Arena.Resettled.of_sound ((sound.of_perm order).arena space)
  have start : Resettled uses allocator rows allocator (first ++ rest) := ⟨rfl, resettled⟩
  have other : Resettled uses allocator rows allocator (second ++ rest) :=
    ⟨rfl, fun space => (resettled space).of_perm ((same.append_right rest).filter _)⟩
  obtain ⟨left, isLeft, leftSettled⟩ := (start.putBackEach_ensures fun _ => bounded).exists_ok
  obtain ⟨right, isRight, rightSettled⟩ := (other.putBackEach_ensures fun _ => bounded).exists_ok
  refine ⟨left, right, isLeft, isRight, ?_, fun space => ?_⟩
  · exact rightSettled.options.trans leftSettled.options.symm
  · exact (leftSettled.arena space).agree (rightSettled.arena space) (sound.arena space).ordered

end Allocator

namespace Session

variable {options : Options} {opened reached : Session} {operations : List Operation}

/-- In every session that a run reaches, users can put any of the chunks that they hold back in any
order, and the nodes and the free pools that come out agree for all orders. -/
theorem reached_confluent (words : options.WordsBelow (2 ^ 55))
    (made : ofOptions options = .ok opened) (done : opened.run operations = .ok reached) :
    ∀ first second : List Chunk, first ⊆ reached.chunks → first.Nodup → first.Perm second →
      ∃ left right, reached.allocator.putBackEach first = .ok left ∧
        reached.allocator.putBackEach second = .ok right ∧ left.Agrees right := by
  have chunkWords : options.ChunkWordsBelow Header.sizeLimit := words.chunkWords (by decide)
  obtain ⟨sound, isOptions, within⟩ := reached_sound made done chunkWords (Or.inr words)
  have granule : reached.allocator.options.commitGranuleWords < 2 ^ 55 := by
    rw [isOptions]
    exact words .commitGranuleWords rfl
  have bounded : reached.allocator.Bounded := Allocator.Bounded.of_within granule (within _ words)
  intro first second isHeld distinct same
  exact sound.allocator.exists_agreeing bounded isHeld distinct same

/-- A run that divides a medium chunk into two specialized ones and a small one. -/
def divided : List Operation := [.allocate .nonClass 3, .allocate .nonClass 3, .allocate .nonClass 6]

/-- If the parts are put back in the order of their offsets, the first two are merged into a small
chunk in between, and in the reverse order they are not. -/
theorem divided_confluent : ∃ opened reached : Session, ofOptions Options.smallest = .ok opened ∧
    opened.run divided = .ok reached ∧ reached.chunks.map Chunk.bottom = [0, 3, 6] ∧
    ∃ left right, reached.allocator.putBackEach reached.chunks = .ok left ∧
      reached.allocator.putBackEach reached.chunks.reverse = .ok right ∧ left.Agrees right := by
  have evaluated : (ofOptions Options.smallest >>= fun session => session.run divided).toOption.map
      (fun reached => reached.chunks.map Chunk.bottom) = some [0, 3, 6] := by decide +kernel
  obtain ⟨opened, reached, made, done, bottoms⟩ := exists_reached evaluated
  have distinct : reached.chunks.Nodup := by
    apply List.Nodup.of_map Chunk.bottom
    rw [bottoms]
    decide
  exact ⟨opened, reached, made, done, bottoms, reached_confluent Options.smallest_wordsBelow made done
    _ _ (List.Subset.refl _) distinct (List.reverse_perm _).symm⟩

end Session

end CollectorMemory
