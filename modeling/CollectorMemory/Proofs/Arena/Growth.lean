import CollectorMemory.Proofs.Arena.Stuck
import CollectorMemory.Proofs.Arena.Take
import CollectorMemory.Proofs.Node.Growth

/-!
# Growth of a sound arena

New chunks are carved from the current node, which is the last one. If it has no room, more of it is
committed, or it is retired and a new node is reserved. Each of these steps keeps the arena sound and
spares the chunks that are held.
-/

namespace CollectorMemory

variable {excuse : Prop} {uses : Nat} {list : NodeList} {pool : Pool} {held : List Chunk}
  {node : Node} {row : List Block} {kind : Kind} {size words least preferred suggested : Nat}

/-- A stock stays settled where more of its node is committed. -/
theorem Settled.commit (settled : Settled uses pool node held row) {amount : Nat}
    (whole : (node.committed + amount) % node.sizes.specialized = 0)
    (inside : node.committed + amount ≤ node.reserved) :
    Settled uses pool { node with words := node.words ++ Array.replicate amount 0 } held row where
  carved := settled.carved.commit whole inside
  inUse := settled.inUse
  poolSound := settled.poolSound
  sizes := settled.sizes
  isClass := settled.isClass
  perm := settled.perm
  looseOwned chunk member container :=
    let ⟨owned, used, usesLe⟩ := settled.looseOwned chunk member container
    ⟨⟨owned.container, owned.isClass, owned.sound⟩, used, usesLe⟩
  coalesced := settled.coalesced

/-- The nodes commit no more words than they reserve. -/
theorem Arena.Sound.committed_le (sound : Arena.Sound uses ⟨list, pool⟩ held) :
    (list.nodes.toList.map Node.committed).sum ≤ list.total := by
  apply List.sum_le_sum
  intro node member
  obtain ⟨row, settled⟩ := sound.settled node member
  exact settled.carved.committed_le

/-- A node with a new number and no chunk settles. -/
theorem Arena.Sound.settled_new (sound : Arena.Sound uses ⟨list, pool⟩ held)
    (isId : node.id = ⟨list.space, list.nextIndex⟩) (sizes : node.sizes = list.sizes)
    (inUse : node.chunksInUse = 0) (carved : node.Carved []) : Settled uses pool node held [] := by
  -- No chunk lives in the node, since its number is new.
  have noneThere : blocksIn node.id (pool.chunks ++ held) = [] := by
    unfold blocksIn within
    rw [List.filter_eq_nil_iff.mpr, List.map_nil]
    intro chunk member
    obtain ⟨other, inList, isOther⟩ := sound.live chunk member
    have older : other.id.index < list.nextIndex := sound.numbered other inList
    rw [beq_iff_eq]
    intro same
    rw [isOther, same, isId] at older
    exact Nat.lt_irrefl _ older
  have top : node.top = 0 := carved.tiles.symm
  exact {
    carved := carved
    inUse := inUse
    poolSound := sound.poolSound
    sizes := sound.poolSizes.trans sizes.symm
    isClass := by
      rw [sound.poolClass]
      unfold Node.isClass
      rw [isId]
    perm := by rw [noneThere]
    looseOwned := by
      intro chunk member container
      have there : chunk.block ∈ blocksIn node.id (pool.chunks ++ held) :=
        mem_blocksIn.mpr ⟨chunk, List.mem_append_right _ member, container, rfl⟩
      rw [noneThere] at there
      exact absurd there List.not_mem_nil
    coalesced := by
      intro kind start size isArea mergeable
      have positive := isArea.positive
      have within := mergeable.inside
      omega }

/-- An arena goes on where a new node without chunks becomes the current one. -/
theorem Arena.Sound.push (sound : Arena.Sound uses ⟨list, pool⟩ held)
    (isId : node.id = ⟨list.space, list.nextIndex⟩) (sizes : node.sizes = list.sizes)
    (opened : list.isClass = true → list.nodes.toList = [])
    (inside : list.total + node.reserved ≤ list.limit) (inUse : node.chunksInUse = 0)
    (carved : node.Carved []) :
    Arena.Follows uses 1 held held ⟨list, pool⟩
      ⟨{ list with nodes := list.nodes.push node, nextIndex := list.nextIndex + 1 }, pool⟩ := by
  have nodes : (list.nodes.push node).toList = list.nodes.toList ++ [node] := Array.toList_push
  have ordered : NodeList.Ordered
      { list with nodes := list.nodes.push node, nextIndex := list.nextIndex + 1 } :=
    sound.ordered.push (by rw [isId]) (by rw [isId]; exact sound.numbered) _
  have cases_ : ∀ other ∈ (list.nodes.push node).toList,
      other ∈ list.nodes.toList ∨ other = node := by
    intro other member
    rw [nodes] at member
    exact (List.mem_append.mp member).imp_right List.mem_singleton.mp
  have whole : list.Whole → NodeList.Whole
      { list with nodes := list.nodes.push node, nextIndex := list.nextIndex + 1 } := by
    intro whole isClass
    obtain ⟨only, isOnly, _⟩ := whole isClass
    rw [opened isClass] at isOnly
    cases isOnly
  refine ⟨?_, ⟨⟨rfl, rfl, rfl, rfl, rfl, whole⟩, ?_⟩, Nat.le_refl _,
    fun few => absurd few (Nat.not_succ_le_self _)⟩
  · refine {
      ordered := ordered
      numbered := ?_
      nodeSizes := ?_
      short := sound.short
      granule_pos := sound.granule_pos
      granule_whole := sound.granule_whole
      limited := ?_
      poolSound := sound.poolSound
      poolSizes := sound.poolSizes
      poolClass := sound.poolClass
      live := ?_
      settled := ?_ }
    · intro other member
      rcases cases_ other member with inList | isNode
      · exact Nat.lt_succ_of_lt (sound.numbered other inList)
      · rw [isNode, isId]
        exact Nat.lt_succ_self _
    · intro other member
      rcases cases_ other member with inList | isNode
      · exact sound.nodeSizes other inList
      · rw [isNode]
        exact sizes
    · unfold NodeList.total
      rw [nodes, List.map_append, List.sum_append]
      exact inside
    · intro chunk member
      obtain ⟨other, inList, isOther⟩ := sound.live chunk member
      refine ⟨other, ?_, isOther⟩
      rw [nodes]
      exact List.mem_append_left _ inList
    · intro other member
      rcases cases_ other member with inList | isNode
      · exact sound.settled other inList
      · rw [isNode]
        exact ⟨[], sound.settled_new isId sizes inUse carved⟩
  · intro chunk _ other found
    obtain ⟨isOther, front, back, split⟩ := sound.ordered.exists_split found
    change list.nodes.toList = _ at split
    have splitAfter : (list.nodes.push node).toList = front ++ other :: (back ++ [node]) := by
      rw [nodes, split, List.append_assoc, List.cons_append]
    refine ⟨other, ?_, fun _ _ _ => rfl⟩
    rw [← isOther]
    exact ordered.node?_eq splitAfter

/-- Reserving a new node keeps an arena sound and takes a number, and nothing of the node is committed
yet; there is none only in a class space that has one already or where the limit does not allow it. -/
theorem Arena.Sound.reserve_ensures (sound : Arena.Sound uses ⟨list, pool⟩ held)
    (granular : ¬excuse → 0 < words ∧ words % list.sizes.specialized = 0)
    (fits : ¬excuse → list.total + words < wordLimit ∧
      (list.total + words ≤ list.limit → list.nextIndex + 1 < 2 ^ 32)) :
    Ensures excuse (list.reserve words).outcome fun result =>
      match result with
      | none => list.isClass = true ∧ list.nodes.toList ≠ [] ∨ list.limit < list.total + words
      | some list' => Arena.Follows uses 1 held held ⟨list, pool⟩ ⟨list', pool⟩ ∧
          list.total + words ≤ list.limit ∧ list.Buys words list' ∧ ∃ node,
            list'.nodes.toList = list.nodes.toList ++ [node] ∧ node.reserved = words ∧
              node.committed = 0 := by
  unfold NodeList.reserve
  split
  · next closed =>
    rw [Bool.and_eq_true] at closed
    refine Or.inl ⟨closed.1, ?_⟩
    simpa using closed.2
  · next notClosed =>
    have opened : list.isClass = true → list.nodes.toList = [] := by
      intro isClass
      rw [isClass] at notClosed
      simpa using notClosed
    refine Ensures.bindRun (Count.sum_ensures fun hard => by
      have := (fits hard).1
      unfold NodeList.total at this
      omega) ?_
    rintro reserved rfl
    refine Ensures.bindRun (Count.add_ensures fun hard => (fits hard).1) ?_
    rintro total ⟨rfl, counted⟩
    split
    · next beyond =>
      refine ensures_note ?_
      exact Or.inr beyond
    · next inside =>
      refine Ensures.bindRun (Count.addHalf_ensures fun hard =>
        (fits hard).2 (Nat.le_of_not_lt inside)) ?_
      rintro nextIndex ⟨rfl, _⟩
      refine Ensures.bindRun (Node.reserve_ensures (by omega) sound.short granular) ?_
      rintro node ⟨isId, sizes, reserved, inUse, carved, committed⟩
      have limited : list.total + node.reserved ≤ list.limit := by
        rw [reserved]
        exact Nat.le_of_not_lt inside
      have nodes : (list.nodes.push node).toList = list.nodes.toList ++ [node] := Array.toList_push
      have buys : list.Buys words
          { list with nodes := list.nodes.push node, nextIndex := list.nextIndex + 1 } := by
        unfold NodeList.Buys NodeList.total
        rw [nodes, List.map_append, List.sum_append, List.map_singleton, List.sum_singleton, reserved,
          Nat.mul_succ]
        omega
      exact ⟨sound.push isId sizes opened limited inUse carved, Nat.le_of_not_lt inside, buys, node,
        nodes, reserved, committed⟩

/-- Committing more of the current node keeps an arena sound. The node offers the words that were asked
for then, and if it cannot, the list stays as it was. -/
theorem Arena.Sound.expandCurrent_ensures (sound : Arena.Sound uses ⟨list, pool⟩ held)
    (fits : ¬excuse → max preferred least + list.sizes.specialized ≤ wordLimit) :
    Ensures excuse (list.expandCurrent least preferred).outcome fun (isDone, list') =>
      Arena.Follows uses 0 held held ⟨list, pool⟩ ⟨list', pool⟩ ∧
      match isDone with
      | true => list'.Offers least ∧
          ∃ node, list.current? = some node ∧ least ≤ node.reserved - node.committed
      | false => list' = list ∧
          ∀ node, list.current? = some node → node.reserved - node.committed < least := by
  unfold NodeList.expandCurrent
  cases found : list.current? with
  | none => exact ⟨sound.follows, rfl, fun node isCurrent => by cases isCurrent⟩
  | some node =>
    have member := NodeList.mem_of_current? found
    obtain ⟨row, settled⟩ := sound.settled node member
    have sizes : node.sizes = list.sizes := sound.nodeSizes node member
    have topLe := settled.carved.top_le
    refine Ensures.bindRun (settled.carved.expand_ensures (by rw [sizes]; exact fits)) ?_
    rintro (_ | after) expanded
    · refine ⟨sound.follows, rfl, fun other isCurrent => ?_⟩
      rw [← Option.some.inj isCurrent]
      exact expanded
    · obtain ⟨amount, isAfter, whole, inside, enough⟩ := expanded
      have ordered : list.Ordered := sound.ordered
      obtain ⟨front, split⟩ := NodeList.current?_eq_some_iff.mp found
      have sameId : after.id = node.id := by rw [isAfter]
      have committed : after.committed = node.committed + amount := by
        rw [isAfter]
        exact (Array.size_append ..).trans (congrArg _ Array.size_replicate)
      change Arena.Follows uses 0 held held ⟨list, pool⟩ ⟨list.withNode after, pool⟩ ∧
        (list.withNode after).Offers least ∧ _
      rw [ordered.withNode_eq split sameId]
      refine ⟨?_, ⟨after, NodeList.current?_eq_some_iff.mpr ⟨front, rfl⟩, ?_⟩, node, rfl, by omega⟩
      · rw [isAfter]
        refine ⟨?_, ?_, Nat.le_refl _, ?_⟩
        · exact sound.update split rfl rfl rfl (Pool.Alike.refl pool) (List.Perm.refl _)
            (List.Perm.refl _) (settled.commit whole inside)
        · exact Arena.Spares.of_node sound.ordered split rfl rfl fun _ _ _ offset _ _ =>
            Words.word_append_zeros node.words amount offset
        · exact fun _ => ⟨rfl, Nat.le_of_eq (NodeList.total_replace split rfl)⟩
      · have top : after.top = node.top := by rw [isAfter]
        omega

/-- Retiring the current node keeps an arena sound and gives the node up. -/
theorem Arena.Sound.retireCurrent_ensures (sound : Arena.Sound uses ⟨list, pool⟩ held)
    (bounded : ¬excuse → list.Bounded) (within : words ≤ list.limit)
    (notClass : list.isClass = false) :
    Ensures excuse (list.retireCurrent pool).outcome fun (list', pool') =>
      Arena.Follows uses 0 held held ⟨list, pool⟩ ⟨list', pool'⟩ ∧
        Arena.GivenUp uses held words ⟨list, pool⟩ ⟨list', pool'⟩ := by
  unfold NodeList.retireCurrent
  cases found : list.current? with
  | none => exact ⟨sound.follows, Or.inl rfl⟩
  | some node =>
    have member := NodeList.mem_of_current? found
    have ordered : list.Ordered := sound.ordered
    obtain ⟨front, split⟩ := NodeList.current?_eq_some_iff.mp found
    obtain ⟨row, settled⟩ := sound.settled node member
    have sizes : node.sizes = list.sizes := sound.nodeSizes node member
    have reservedLe := sound.reserved_le member
    refine Ensures.bindRun (settled.retire_ensures (sound.room bounded member) fun hard => by
      obtain ⟨limit, _, _, medium⟩ := bounded hard
      rw [sizes]
      unfold wordLimit
      omega) ?_
    rintro ⟨node', pool'⟩ ⟨steady, top, after, settledAfter, coarser⟩
    refine ⟨sound.withNode member steady settledAfter (List.Perm.refl _),
      Or.inr ⟨within, notClass, front, node, node', row, after, ?_⟩⟩
    exact {
      nodes := split
      list := ordered.withNode_eq split steady.nodeAlike.id
      before := settled
      settled := settledAfter
      steady := steady
      top := top
      coarser := coarser }

/-- A chunk that is carved from the current node answers the request, is in use afterwards, and the
arena is sound with it. There is one exactly if the node has room for it. -/
theorem Arena.Sound.takeCurrent_ensures (sound : Arena.Sound uses ⟨list, pool⟩ held)
    (bounded : ¬excuse → list.Bounded) (suits : list.sizes.Suits kind size)
    (short : size ≤ list.limit → size < Header.sizeLimit) (small : ¬excuse → size < 2 ^ 56) :
    Ensures excuse (list.takeCurrent size pool).outcome fun (found, list', pool') =>
      Arena.Follows uses 0 held (found.toList ++ held) ⟨list, pool⟩ ⟨list', pool'⟩ ∧
      match found with
      | none => list' = list ∧ pool' = pool ∧ ∀ node, list.current? = some node →
          ¬node.sizes.Fits kind size node.top node.committed
      | some chunk => chunk.Answers kind size ∧ ∃ node, list.current? = some node ∧
          node.sizes.Fits kind size node.top node.committed := by
  unfold NodeList.takeCurrent
  cases current : list.current? with
  | none => exact ⟨sound.follows, rfl, rfl, fun node isCurrent => by cases isCurrent⟩
  | some node =>
    have member := NodeList.mem_of_current? current
    obtain ⟨row, settled⟩ := sound.settled node member
    have sizes : node.sizes = list.sizes := sound.nodeSizes node member
    have reservedLe := sound.reserved_le member
    refine Ensures.bindRun (settled.carveAligned_ensures (sound.room bounded member)
      (by rw [sizes]; exact suits) (fun inside => short (Nat.le_trans inside reservedLe))
      fun hard => by
        obtain ⟨limit, _, _, _⟩ := bounded hard
        have := small hard
        unfold wordLimit
        omega) ?_
    rintro (_ | ⟨node', pool', chunk⟩) taken
    · refine ⟨sound.follows, rfl, rfl, fun other isCurrent => ?_⟩
      rw [← Option.some.inj isCurrent]
      exact taken
    · obtain ⟨fits, steady, _, container, answers, after, settledAfter, _⟩ := taken
      exact ⟨sound.withNode member steady settledAfter (List.Perm.of_eq (outside_cons_self container)),
        answers, node, rfl, fits⟩

/-- Reserve a new node, if the limit allows one, and commit words in it. -/
def NodeList.expandNew (list : NodeList) (least most preferred : Nat) (pool : Pool) :
    Run (Bool × NodeList × Pool) := do
  let words ← Count.roundUp (max list.nodeWords preferred) list.granule
  match ← list.reserve words with
  | none => return (false, list, pool)
  | some list =>
    let (isDone, list) ← list.expandCurrent least most
    return (isDone, list, pool)

/-- Growing by a new node keeps an arena sound. The new node takes a number and offers the words that
were asked for, and there is none only if the limit does not allow it. -/
theorem Arena.Sound.expandNew_ensures {most : Nat} (sound : Arena.Sound uses ⟨list, pool⟩ held)
    (bounded : ¬excuse → list.Bounded) (notClass : list.isClass = false) (ordered : least ≤ preferred)
    (mostLe : most ≤ preferred) (fits : ¬excuse → 0 < preferred ∧ preferred < 2 ^ 58)
    (numbers : ¬excuse → ¬list.limit < list.total +
      Count.nextMultiple (max list.nodeWords preferred) list.granule → list.nextIndex + 1 < 2 ^ 32) :
    Ensures excuse (list.expandNew least most preferred pool).outcome fun (isDone, list', pool') =>
      pool' = pool ∧
      match isDone with
      | true => Arena.Follows uses 1 held held ⟨list, pool⟩ ⟨list', pool⟩ ∧
          ¬list.limit < list.total +
            Count.nextMultiple (max list.nodeWords preferred) list.granule ∧ list'.Offers least ∧
          list.Buys (Count.nextMultiple (max list.nodeWords preferred) list.granule) list'
      | false => list' = list ∧
          list.limit < list.total +
            Count.nextMultiple (max list.nodeWords preferred) list.granule := by
  have limited : list.total ≤ list.limit := sound.limited
  have specializedLt := list.sizes.specialized_lt
  have smallLt := list.sizes.small_lt
  unfold NodeList.expandNew
  refine Ensures.bindRun (Count.roundUp_ensures (fun _ => sound.granule_pos) fun hard => by
    have bounds := fits hard
    obtain ⟨_, nodeWords, granule, _⟩ := bounded hard
    unfold wordLimit
    omega) ?_
  rintro words ⟨_, wordsWhole, wordsLe, wordsLt, _, isWords⟩
  rw [← isWords] at numbers ⊢
  have granular : words % list.sizes.specialized = 0 := Nat.mod_eq_zero_of_dvd (Nat.dvd_trans
    (Nat.dvd_of_mod_eq_zero sound.granule_whole) (Nat.dvd_of_mod_eq_zero wordsWhole))
  refine Ensures.bindRun (sound.reserve_ensures
    (fun hard => ⟨by have := fits hard; omega, granular⟩) fun hard => by
      have bounds := fits hard
      obtain ⟨limit, nodeWords, granule, _⟩ := bounded hard
      refine ⟨by unfold wordLimit; omega, fun inside => ?_⟩
      exact numbers hard (Nat.not_lt.mpr inside)) ?_
  rintro (_ | grown) reserved
  · refine ⟨rfl, rfl, ?_⟩
    rcases reserved with ⟨isClass, _⟩ | beyond
    · rw [notClass] at isClass
      exact absurd isClass Bool.false_ne_true
    · exact beyond
  · obtain ⟨follows, inside, buys, node, nodes, nodeReserved, nodeCommitted⟩ := reserved
    have grownSizes : grown.sizes = list.sizes := follows.spares.list.sizes
    refine Ensures.bindRun (follows.sound.expandCurrent_ensures fun hard => by
      have bounds := fits hard
      have medium := (bounded hard).medium
      rw [grownSizes]
      unfold wordLimit
      omega) ?_
    rintro ⟨_ | _, last⟩ ⟨lastFollows, expanded⟩
    · -- A new node has all words left that it reserved.
      have few := expanded.2 node (NodeList.current?_eq_some_iff.mpr ⟨_, nodes⟩)
      omega
    · exact ⟨rfl, follows.trans lastFollows, Nat.not_lt.mpr inside, expanded.1,
        buys.trans lastFollows.buys⟩

/-- Growing by committing words in the current node or in a new one keeps an arena sound. The current
node offers the words that were asked for then, and if it cannot, the list is exhausted. -/
theorem Arena.Sound.expand_ensures (sound : Arena.Sound uses ⟨list, pool⟩ held)
    (bounded : ¬excuse → list.Bounded)
    (numbers : ¬excuse → (∀ node, list.current? = some node → node.reserved - node.committed < least) →
      ¬list.Exhausted least preferred → list.nextIndex + 1 < 2 ^ 32)
    (ordered : least ≤ preferred) (fits : ¬excuse → 0 < preferred ∧ preferred < 2 ^ 58) :
    Ensures excuse (list.expand least preferred pool).outcome fun (isDone, list', pool') =>
      Arena.Follows uses 1 held held ⟨list, pool⟩ ⟨list', pool'⟩ ∧
      match isDone with
      | true => ¬list.Exhausted least preferred ∧ list'.Offers least ∧
          list.Buys (Count.nextMultiple (max list.nodeWords preferred) list.granule) list'
      | false => list.Exhausted least preferred ∧
          Arena.GivenUp uses held least ⟨list, pool⟩ ⟨list', pool'⟩ := by
  have limited : list.total ≤ list.limit := sound.limited
  have committedLe := sound.committed_le
  have specializedLt := list.sizes.specialized_lt
  have smallLt := list.sizes.small_lt
  unfold NodeList.expand
  refine Ensures.bindRun (Count.sum_ensures fun hard => by
    have limit := (bounded hard).limit
    unfold wordLimit
    omega) ?_
  rintro committed rfl
  by_cases few : list.limit - (list.nodes.toList.map Node.committed).sum < least
  · rw [if_pos few]
    refine ensures_note ?_
    exact ⟨sound.follows, Or.inl few, Or.inl rfl⟩
  · rw [if_neg few]
    refine Ensures.bindRun (sound.expandCurrent_ensures fun hard => by
      have bounds := fits hard
      have medium := (bounded hard).medium
      unfold wordLimit
      omega) ?_
    rintro ⟨_ | _, first⟩ ⟨firstFollows, expanded⟩
    · obtain ⟨rfl, noneLeft⟩ := expanded
      dsimp only
      rw [if_neg Bool.false_ne_true]
      by_cases single : first.isClass = true
      · rw [if_pos single]
        exact ⟨sound.follows, Or.inr ⟨noneLeft, Or.inl single⟩, Or.inl rfl⟩
      · rw [if_neg single]
        have notClass : first.isClass = false := by simpa using single
        have exhaustedIff : first.Exhausted least preferred ↔ _ :=
          NodeList.exhausted_iff_beyond few noneLeft notClass
        have within : least ≤ first.limit := by omega
        refine Ensures.bindRun (sound.retireCurrent_ensures bounded within notClass) ?_
        rintro ⟨second, secondPool⟩ ⟨follows, givenUp⟩
        have secondAlike : first.Alike second := follows.spares.list
        have secondNumber : second.nextIndex ≤ first.nextIndex := follows.number
        have sameSpace : second.isClass = first.isClass := congrArg Space.isClass secondAlike.space
        have numbers := fun hard => numbers hard noneLeft
        rw [exhaustedIff, ← givenUp.total_eq, ← secondAlike.limit, ← secondAlike.nodeWords,
          ← secondAlike.granule] at numbers ⊢
        change Ensures excuse (second.expandNew least _ preferred secondPool).outcome _
        apply (follows.sound.expandNew_ensures (NodeList.Bounded.of_follows bounded follows)
          (sameSpace.trans notClass) ordered (Nat.min_le_left _ _) fits fun hard notBeyond => by
            have number := numbers hard notBeyond
            omega).mono
        rintro ⟨_ | _, last, lastPool⟩ ⟨rfl, grown⟩
        · obtain ⟨rfl, beyond⟩ := grown
          exact ⟨follows.mono (Nat.zero_le 1), beyond, givenUp⟩
        · obtain ⟨lastFollows, notBeyond, offers, buys⟩ := grown
          exact ⟨follows.trans lastFollows, notBeyond, offers, follows.buys.trans buys⟩
    · obtain ⟨offers, node, current, enough⟩ := expanded
      dsimp only
      rw [if_pos rfl]
      refine ⟨firstFollows.mono (Nat.zero_le 1), ?_, offers, firstFollows.buys⟩
      rintro (fewer | ⟨noneLeft, _⟩)
      · exact few fewer
      · have less := noneLeft node current
        omega

/-- The most padding of a chunk depends on its kind, and is less than its size. -/
theorem NodeList.mostPadding_ensures (suits : list.sizes.Suits kind size) :
    Ensures excuse (list.mostPadding size) fun padding =>
      padding = list.sizes.mostPadding kind size ∧ padding < size := by
  have headerLt := suits.header_lt
  have specializedPos := list.sizes.specialized_pos
  unfold NodeList.mostPadding
  apply Ensures.bind (ensures_eq (ChunkSizes.kindOfSize_eq_ok_iff.mpr suits))
  intro found same
  subst same
  refine ⟨rfl, ?_⟩
  split
  · omega
  · omega

/-- Carve a chunk from the current node after it has grown. -/
def NodeList.takeGrown (list : NodeList) (size : Nat) (pool : Pool) :
    Run (Option Chunk × NodeList × Pool) := do
  if list.nodes.isEmpty then return (none, list, pool)
  let (found, list, pool) ← list.takeCurrent size pool
  Run.noteIf found.isNone (.carvingFailed size)
  return (found, list, pool)

/-- There is a chunk to carve from the current node if it offers what the list grows by for it. -/
theorem Arena.Sound.takeGrown_ensures (sound : Arena.Sound uses ⟨list, pool⟩ held)
    (bounded : ¬excuse → list.Bounded) (suits : list.sizes.Suits kind size)
    (short : size ≤ list.limit → size < Header.sizeLimit) (small : ¬excuse → size < 2 ^ 56)
    (offers : list.Offers (list.leastGrowth kind size)) :
    Ensures excuse (list.takeGrown size pool).outcome fun (found, list', pool') =>
      ∃ chunk, found = some chunk ∧ chunk.Answers kind size ∧
        Arena.Follows uses 0 held (chunk :: held) ⟨list, pool⟩ ⟨list', pool'⟩ := by
  obtain ⟨node, current, room⟩ := offers.fits sound.granule_pos sound.nodeSizes
    (fun node member =>
      let ⟨row, settled⟩ := sound.settled node member
      ⟨row, settled.carved⟩) suits
  unfold NodeList.takeGrown
  by_cases nothing : list.nodes.isEmpty = true
  · have member := NodeList.mem_of_current? current
    rw [Array.isEmpty_iff.mp nothing] at member
    exact absurd member List.not_mem_nil
  · rw [if_neg nothing]
    refine Ensures.bindRun (sound.takeCurrent_ensures bounded suits short small) ?_
    rintro ⟨_ | chunk, list', pool'⟩ ⟨follows, taken⟩
    · exact absurd room (taken.2.2 node current)
    · refine ensures_noteIf ?_
      exact ⟨chunk, rfl, taken.1, follows⟩

/-- A new chunk answers the request, is in use, and the arena is sound with it. There is none exactly if
the list is full, and then the current node was given up at most. -/
theorem Arena.Sound.newChunk_ensures (sound : Arena.Sound uses ⟨list, pool⟩ held)
    (bounded : ¬excuse → list.Bounded)
    (numbers : ¬excuse → list.Opens kind size suggested → list.nextIndex + 1 < 2 ^ 32)
    (suits : list.sizes.Suits kind size) (short : size ≤ list.limit → size < Header.sizeLimit)
    (small : ¬excuse → size < 2 ^ 56 ∧ suggested < 2 ^ 56) :
    Ensures excuse (list.newChunk size suggested pool).outcome fun (found, list', pool') =>
      Arena.Follows uses 1 held (found.toList ++ held) ⟨list, pool⟩ ⟨list', pool'⟩ ∧
      match found with
      | none => list.Full kind size suggested ∧
          Arena.GivenUp uses held size ⟨list, pool⟩ ⟨list', pool'⟩
      | some chunk => chunk.Answers kind size ∧ ¬list.Full kind size suggested ∧
          list.Buys (list.nodeGrowth kind size suggested) list' := by
  have headerLt := suits.header_lt
  have granulePos : 0 < list.granule := sound.granule_pos
  unfold NodeList.newChunk
  refine Ensures.bindRun (sound.takeCurrent_ensures bounded suits short fun hard =>
    (small hard).1) ?_
  rintro ⟨_ | found, first, firstPool⟩ ⟨firstFollows, taken⟩
  · obtain ⟨rfl, rfl, noRoom⟩ := taken
    dsimp only
    rw [if_neg (by simp)]
    refine Ensures.bindRun (NodeList.mostPadding_ensures suits) ?_
    rintro padding ⟨isPadding, less⟩
    refine Ensures.bindRun (Count.add_ensures fun hard => by
      have := small hard
      unfold wordLimit
      omega) ?_
    rintro needed ⟨rfl, _⟩
    refine Ensures.bindRun (Count.roundUp_ensures (fun _ => granulePos) fun hard => by
      have := small hard
      have := (bounded hard).granule
      unfold wordLimit
      omega) ?_
    rintro least ⟨_, _, leastLe, leastLt, _, isLeast⟩
    refine Ensures.bindRun (Count.roundUp_ensures (fun _ => granulePos) fun hard => by
      have := small hard
      have := (bounded hard).granule
      unfold wordLimit
      omega) ?_
    rintro wanted ⟨_, _, _, wantedLt, _, isWanted⟩
    rw [isPadding] at isLeast
    have leastEq : least = first.leastGrowth kind size := isLeast
    have preferredEq : max wanted least = first.preferredGrowth kind size suggested := by
      rw [isWanted, leastEq]
      rfl
    have fullIff : first.Full kind size suggested ↔ first.Exhausted least (max wanted least) := by
      rw [preferredEq, leastEq]
      exact ⟨NodeList.Full.exhausted, fun exhausted => ⟨noRoom, exhausted⟩⟩
    refine Ensures.bindRun (sound.expand_ensures bounded
      (fun hard noneLeft notExhausted => numbers hard
        ⟨noRoom, leastEq ▸ noneLeft, fun exhausted => notExhausted (fullIff.mp ⟨noRoom, exhausted⟩)⟩)
      (Nat.le_max_right _ _) fun hard => by
        have := small hard
        have := (bounded hard).granule
        omega) ?_
    rintro ⟨_ | _, second, secondPool⟩ ⟨follows, grown⟩
    · dsimp only
      rw [if_pos (by rfl)]
      exact ⟨follows, fullIff.mpr grown.1, grown.2.mono (by omega)⟩
    · obtain ⟨notExhausted, offers, buys⟩ := grown
      rw [preferredEq] at buys
      have alike : first.Alike second := follows.spares.list
      have secondSuits : second.sizes.Suits kind size := by
        rw [alike.sizes]
        exact suits
      rw [leastEq, ← alike.leastGrowth_eq] at offers
      dsimp only
      rw [if_neg (by simp)]
      change Ensures excuse (second.takeGrown size secondPool).outcome _
      apply (follows.sound.takeGrown_ensures (NodeList.Bounded.of_follows bounded follows) secondSuits
        (by rw [alike.limit]; exact short) (fun hard => (small hard).1) offers).mono
      rintro ⟨_, third, thirdPool⟩ ⟨chunk, rfl, answers, thirdFollows⟩
      exact ⟨follows.trans thirdFollows, answers, fun full => notExhausted (fullIff.mp full),
        buys.trans thirdFollows.buys⟩
  · obtain ⟨answers, node, current, room⟩ := taken
    dsimp only
    rw [if_pos (by rfl)]
    exact ⟨firstFollows.mono (Nat.zero_le 1), answers, fun full => full.room node current room,
      firstFollows.buys⟩

/-- A chunk that an arena provides answers the request, is in use, and the arena is sound with it. There
is none exactly if the arena is stuck, and then its current node was given up at most. -/
theorem Arena.Sound.provide_ensures {arena : Arena} (sound : Arena.Sound uses arena held)
    (bounded : ¬excuse → arena.list.Bounded)
    (numbers : ¬excuse → arena.Opens kind size suggested → arena.list.nextIndex + 1 < 2 ^ 32)
    (suits : arena.list.sizes.Suits kind size)
    (short : size ≤ arena.list.limit → size < Header.sizeLimit)
    (small : ¬excuse → size < 2 ^ 56 ∧ suggested < 2 ^ 56) :
    Ensures excuse (arena.provide size suggested).outcome fun (found, arena') =>
      Arena.Follows uses 1 held (found.toList ++ held) arena arena' ∧
      match found with
      | none => arena.Stuck kind size suggested ∧ Arena.GivenUp uses held size arena arena'
      | some chunk => chunk.Answers kind size ∧ ¬arena.Stuck kind size suggested ∧
          arena.list.Buys (arena.list.nodeGrowth kind size suggested) arena'.list := by
  unfold Arena.provide
  refine Ensures.bindRun (sound.take_ensures suits) ?_
  rintro (_ | ⟨pool', list', chunk⟩) taken
  · refine Ensures.bindRun (sound.newChunk_ensures bounded
      (fun hard opens => numbers hard ⟨taken, opens⟩) suits short small) ?_
    rintro ⟨_ | found, list', pool'⟩ ⟨follows, carved⟩
    · exact ⟨follows, ⟨taken, carved.1⟩, carved.2⟩
    · exact ⟨follows, carved.1, fun stuck => carved.2.1 stuck.full, carved.2.2⟩
  · obtain ⟨⟨chunk, inPool, serves⟩, answers, follows⟩ := taken
    exact ⟨follows.mono (Nat.zero_le 1), answers, fun stuck => stuck.pool chunk inPool serves,
      follows.buys⟩

end CollectorMemory
