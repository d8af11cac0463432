import CollectorMemory.Proofs.Arena.Confined
import CollectorMemory.Proofs.Arena.Growth

/-!
# Requests for more than the limit

No free chunk and no node is larger than the limit, so a request for more is declined: the pool has no
chunk for it, the current node no room, and the list may not grow by it. Nothing changes on the way. The
number of words by which the list would have to grow is computed before it is compared with the limit,
and the request stops with an overflow where that number is no count.
-/

namespace CollectorMemory

variable {α β : Type} {confines : Confines} {list : NodeList} {pool : Pool} {arena : Arena} {node : Node}
  {kind : Kind} {size words : Nat}

/-- The outcome is the value, unless a number of words is no count: then it may be an overflow. -/
def Yields (words : Nat) (outcome : Except Fault α) (value : α) : Prop :=
  outcome = .ok value ∨ wordLimit ≤ words ∧ outcome = .error .overflow

/-- A number is yielded if it is a count, and is at most the words that are asked about. -/
theorem yields_check {number : Nat} (le : number ≤ words) :
    Yields words (Count.check number) number := by
  by_cases counted : number < wordLimit
  · exact Or.inl (if_pos counted)
  · exact Or.inr ⟨by omega, if_neg counted⟩

/-- Two operations in sequence yield what the second one yields. -/
theorem Yields.bind {first : Except Fault α} {next : α → Except Fault β} {value : α} {result : β}
    (yields : Yields words first value) (later : Yields words (next value) result) :
    Yields words (first >>= next) result := by
  rcases yields with done | ⟨beyond, overflows⟩
  · rw [done]
    exact later
  · exact Or.inr ⟨beyond, by rw [overflows]; rfl⟩

/-- Two operations in sequence come to what the second one comes to, if that is an overflow wherever the
first one may overflow. -/
theorem Yields.bind_eq {first : Except Fault α} {next : α → Except Fault β} {value : α}
    {result : Except Fault β} (yields : Yields words first value) (later : next value = result)
    (stops : wordLimit ≤ words → result = .error .overflow) : (first >>= next) = result := by
  rcases yields with done | ⟨beyond, overflows⟩
  · rw [done]
    exact later
  · rw [overflows, stops beyond]
    rfl

/-- No free chunk serves a request for more than the limit. -/
theorem Pool.Confined.take_oversized (isPool : pool.Confined confines)
    (suits : confines.sizes.Suits kind size) (beyond : confines.limit < size) :
    (pool.take list size).outcome = .ok none := by
  have isKind : pool.sizes.kindOfSize size = .ok kind := by
    rw [isPool.sizes]
    exact ChunkSizes.kindOfSize_eq_ok_iff.mpr suits
  -- A free chunk of the kind has the size that is asked for, and one of a larger kind a larger size.
  have noneOf : ∀ kinds : List Kind,
      (∀ other ∈ kinds, other = kind ∧ kind ≠ .humongous ∨ kind.code < other.code) →
        pool.firstOf? kinds = none := by
    intro kinds serves
    cases found : pool.firstOf? kinds with
    | none => rfl
    | some first =>
      obtain ⟨-, unused, isThere⟩ := isPool.firstOf? found
      have sizeLe := unused.size_le
      rcases serves _ isThere with ⟨same, fixed⟩ | above
      · have firstSuits := unused.suits
        rw [same] at firstSuits
        have sameSize := suits.size_eq firstSuits fixed
        omega
      · have larger := suits.lt_of_code_lt unused.suits above
        omega
  have selected : (pool.select list size).outcome = .ok none := by
    unfold Pool.select
    rw [Run.outcome_bind, Run.outcome_liftM, isKind]
    change (if kind.isHumongous then _ else _ : Run _).outcome = _
    split
    · next humongous =>
      have nothing : takeFirst? (fun chunk => size ≤ chunk.size) pool.humongous = none := by
        apply takeFirst?_eq_none
        intro chunk member
        have sizeLe := (isPool.chunks .humongous chunk member).2.size_le
        exact decide_eq_false (by omega)
      rw [nothing]
      rfl
    · next fixed =>
      have notHumongous : kind ≠ .humongous := fun same => fixed (by rw [same]; rfl)
      have nothing := noneOf [kind] fun other isThis =>
        Or.inl ⟨List.mem_singleton.mp isThis, notHumongous⟩
      have noneLarger := noneOf kind.above fun other isAbove => Or.inr (Kind.of_mem_above isAbove).2
      rw [nothing]
      unfold Pool.splitLarger
      rw [noneLarger]
      rfl
  unfold Pool.take
  rw [Run.outcome_bind, selected]
  rfl

/-- A chunk of more than the limit starts within its size, and needs more room than is committed, up to
that of the chunk with the most padding. -/
theorem Node.Confined.start_bounds (isNode : node.Confined confines)
    (suits : confines.sizes.Suits kind size) (beyond : confines.limit < size) :
    Count.nextMultiple node.top (confines.sizes.alignment kind size) ≤ size ∧
      Count.nextMultiple node.top (confines.sizes.alignment kind size) - node.top ≤
        confines.sizes.mostPadding kind size := by
  have topLe := isNode.top_le_limit
  have topWhole := isNode.top_whole
  have positive := suits.alignment_pos
  unfold ChunkSizes.mostPadding
  by_cases humongous : kind.isHumongous = true
  · have alignment : confines.sizes.alignment kind size = confines.sizes.specialized :=
      if_pos humongous
    rw [alignment] at positive ⊢
    rw [if_pos humongous]
    have start := Count.nextMultiple_le positive topWhole (Nat.le_refl node.top)
    omega
  · have alignment : confines.sizes.alignment kind size = size := if_neg humongous
    rw [alignment] at positive ⊢
    rw [if_neg humongous]
    have start := Count.nextMultiple_le positive (Nat.mod_self size) (show node.top ≤ size by omega)
    refine ⟨start, ?_⟩
    rcases Nat.eq_zero_or_pos node.top with isZero | carved
    · have first := Count.nextMultiple_le positive (Nat.zero_mod size) (Nat.le_of_eq isZero)
      omega
    · -- What is carved of the node holds a specialized chunk at least.
      have specialized := Nat.le_of_dvd carved (Nat.dvd_of_mod_eq_zero topWhole)
      omega

/-- A node has no room for a chunk of more than the limit. -/
theorem Node.Confined.take_oversized (isNode : node.Confined confines)
    (suits : confines.sizes.Suits kind size) (beyond : confines.limit < size) :
    Yields (size + confines.sizes.mostPadding kind size) (node.take size pool).outcome none := by
  obtain ⟨startLe, paddingLe⟩ := isNode.start_bounds suits beyond
  have committedLe := Nat.le_trans isNode.committed_le isNode.reserved_le
  unfold Node.take Node.carveAligned
  rw [isNode.sizes, Run.outcome_bind]
  refine Yields.bind (Or.inl (ChunkSizes.kindOfSize_eq_ok_iff.mpr suits)) ?_
  rw [Run.outcome_bind, Run.outcome_liftM, Count.roundUp_eq_check _ suits.alignment_pos]
  refine (yields_check (by omega)).bind ?_
  rw [Run.outcome_bind]
  refine (yields_check (by omega)).bind ?_
  rw [if_pos (by unfold Node.uncarved; omega)]
  exact Or.inl rfl

/-- The current node has no room for a chunk of more than the limit. -/
theorem NodeList.Confined.takeCurrent_oversized (confined : list.Confined confines)
    (suits : confines.sizes.Suits kind size) (beyond : confines.limit < size) :
    Yields (size + confines.sizes.mostPadding kind size) (list.takeCurrent size pool).outcome
      (none, list, pool) := by
  unfold NodeList.takeCurrent
  split
  · exact Or.inl rfl
  next node isCurrent =>
  have isNode := confined.nodes node (NodeList.mem_of_current? isCurrent)
  rw [Run.outcome_bind]
  exact (isNode.take_oversized suits beyond).bind (Or.inl rfl)

/-- A list that would have to grow by more than the limit stays as it is. -/
theorem NodeList.Confined.expand_oversized {least preferred : Nat}
    (confined : list.Confined confines) (counted : confines.limit < wordLimit)
    (beyond : confines.limit < least) :
    (list.expand least preferred pool).outcome = .ok (false, list, pool) := by
  have committedLe := confined.committed_le
  have committed : list.committedWords = .ok (list.nodes.toList.map Node.committed).sum :=
    Ensures.eq_ok (Count.sum_ensures fun _ => by omega) fun _ same => same
  unfold NodeList.expand
  rw [Run.outcome_bind, Run.outcome_liftM, committed]
  have refused : list.limit - (list.nodes.toList.map Node.committed).sum < least := by
    rw [confined.limit]
    omega
  change (if _ then _ else _ : Run _).outcome = _
  rw [if_pos refused]
  rfl

/-- There is no new chunk of more than the limit, and nothing changes. The request stops with an overflow
exactly if the number of words to grow by is no count. -/
theorem NodeList.Confined.newChunk_oversized (confined : list.Confined confines)
    (positive : 0 < confines.granule) (suits : confines.sizes.Suits kind size)
    (beyond : confines.limit < size) :
    (list.newChunk size confines.granule pool).outcome =
      Count.check (list.leastGrowth kind size) >>= fun _ => .ok (none, list, pool) := by
  have isPadding : list.mostPadding size = .ok (confines.sizes.mostPadding kind size) := by
    rw [← confined.sizes] at suits ⊢
    exact Ensures.eq_ok (NodeList.mostPadding_ensures suits) fun _ known => known.1
  have isGrowth : list.leastGrowth kind size =
      Count.nextMultiple (size + confines.sizes.mostPadding kind size) confines.granule := by
    unfold NodeList.leastGrowth
    rw [confined.sizes, confined.granule]
  have neededLe := (Count.nextMultiple_bounds (size + confines.sizes.mostPadding kind size)
    positive).1
  rw [← isGrowth] at neededLe
  have stops : wordLimit ≤ size + confines.sizes.mostPadding kind size →
      (Count.check (list.leastGrowth kind size) >>= fun _ =>
        (.ok (none, list, pool) : Except Fault (Option Chunk × NodeList × Pool))) =
          .error .overflow := by
    intro beyondCount
    rw [show Count.check _ = .error .overflow from if_neg (by omega)]
    rfl
  unfold NodeList.newChunk
  rw [Run.outcome_bind]
  -- Both the search for room and the sum may overflow, but then the growth is no count either.
  refine (confined.takeCurrent_oversized suits beyond).bind_eq ?_ stops
  change (liftM (list.mostPadding size) >>= _ : Run _).outcome = _
  rw [Run.outcome_bind, Run.outcome_liftM, isPadding]
  change (liftM (Count.add size _) >>= _ : Run _).outcome = _
  rw [Run.outcome_bind]
  refine (yields_check (Nat.le_refl _)).bind_eq ?_ stops
  rw [confined.granule, Run.outcome_bind, Run.outcome_liftM, Count.roundUp_eq_check _ positive,
    ← isGrowth]
  by_cases counted : list.leastGrowth kind size < wordLimit
  · rw [show Count.check _ = .ok _ from if_pos counted]
    -- One granule is suggested, which is no more than the growth.
    have suggested : Count.roundUp confines.granule confines.granule =
        .ok (Count.nextMultiple confines.granule confines.granule) := by
      have whole := Count.nextMultiple_mod (size + confines.sizes.mostPadding kind size)
        confines.granule
      rw [← isGrowth] at whole
      have granuleLe := Nat.le_of_dvd (by omega) (Nat.dvd_of_mod_eq_zero whole)
      have same := Count.nextMultiple_le positive (Nat.mod_self _) (Nat.le_refl confines.granule)
      rw [Count.roundUp_eq_check _ positive]
      exact if_pos (by omega)
    change (liftM (Count.roundUp confines.granule confines.granule) >>= _ : Run _).outcome = _
    rw [Run.outcome_bind, Run.outcome_liftM, suggested]
    change (list.expand _ _ pool >>= _ : Run _).outcome = _
    rw [Run.outcome_bind, confined.expand_oversized (by omega) (by omega)]
    rfl
  · rw [show Count.check _ = .error .overflow from if_neg counted]
    rfl

/-- An arena provides no chunk of more than the limit, and stays as it is. -/
theorem Arena.Confined.provide_oversized (confined : arena.Confined confines)
    (positive : 0 < confines.granule) (suits : confines.sizes.Suits kind size)
    (beyond : confines.limit < size) :
    (arena.provide size confines.granule).outcome =
      Count.check (arena.list.leastGrowth kind size) >>= fun _ => .ok (none, arena) := by
  unfold Arena.provide
  rw [Run.outcome_bind, confined.pool.take_oversized suits beyond]
  change (arena.list.newChunk _ _ _ >>= _ : Run _).outcome = _
  rw [Run.outcome_bind, confined.list.newChunk_oversized positive suits beyond]
  cases Count.check (arena.list.leastGrowth kind size) <;> rfl

end CollectorMemory
