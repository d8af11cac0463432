import CollectorMemory.Pool.Audit
import CollectorMemory.Pool.Take
import CollectorMemory.Proofs.Pool.Contents

/-!
# Sound free pools

A pool is sound if every chunk in it is in order, free, empty and in the list of its kind, and if the
numbers that the pool keeps are those of its chunks. How often chunks were taken for use is bounded
by a number that later developments count. The audit of a sound pool passes.
-/

namespace CollectorMemory

namespace Pool

variable {excuse : Prop} {pool after : Pool} {kind : Kind} {chunk : Chunk} {chunks : List Chunk}
  {uses : Nat}

/-- A chunk that can be in a pool. -/
structure Holds (uses : Nat) (pool : Pool) (chunk : Chunk) : Prop where
  /-- The chunk is in order by itself. -/
  sound : chunk.Sound pool.sizes
  /-- The chunk belongs to the space of the pool. -/
  isClass : chunk.isClass = pool.isClass
  /-- The chunk is free. -/
  free : chunk.isFree = true
  /-- No word of the chunk is handed out. -/
  empty : chunk.top = chunk.payload
  /-- The chunk was not taken for use too often. -/
  uses_le : chunk.useCount ≤ uses

/-- A pool whose chunks and numbers are in order. -/
structure Sound (uses : Nat) (pool : Pool) : Prop where
  /-- Every chunk is in the list of its kind. -/
  filed : pool.Filed
  /-- Every chunk can be in the pool. -/
  holds : ∀ chunk ∈ pool.chunks, pool.Holds uses chunk
  /-- The number of chunks is right. -/
  count : pool.count = pool.chunks.length
  /-- The number of words is right. -/
  words : pool.words = wordsOf pool.chunks
  /-- The number of words is a count. -/
  counted : pool.words < wordLimit

/-- A chunk that can be in a pool can be in one that serves the same space. -/
theorem Holds.of_alike (holds : pool.Holds uses chunk) (alike : pool.Alike after) :
    after.Holds uses chunk where
  sound := by rw [alike.sizes]; exact holds.sound
  isClass := by rw [alike.isClass]; exact holds.isClass
  free := holds.free
  empty := holds.empty
  uses_le := holds.uses_le

/-- An empty pool is sound. -/
theorem sound_empty (uses : Nat) (isClass : Bool) (sizes : ChunkSizes) (audited : Bool) :
    (empty isClass sizes audited).Sound uses where
  filed := ⟨fun kind chunk member => by cases kind <;> exact absurd member List.not_mem_nil,
    fun kind => by cases kind <;> exact List.Pairwise.nil⟩
  holds chunk member := by
    obtain ⟨kind, inList⟩ := mem_chunks.mp member
    cases kind <;> exact absurd inList List.not_mem_nil
  count := rfl
  words := rfl
  counted := Nat.two_pow_pos 64

/-- A sound pool stays sound where the bound on uses grows. -/
theorem Sound.mono {more : Nat} (sound : pool.Sound uses) (le : uses ≤ more) : pool.Sound more where
  filed := sound.filed
  holds chunk member :=
    let holds := sound.holds chunk member
    { holds with uses_le := Nat.le_trans holds.uses_le le }
  count := sound.count
  words := sound.words
  counted := sound.counted

/-- The check of the list of a kind passes and adds up its words. -/
theorem Sound.auditKind_ensures (sound : pool.Sound uses) {words : Nat}
    (counted : words + wordsOf (pool.ofKind kind) < wordLimit) :
    Ensures excuse (pool.auditKind words kind) fun total =>
      total = words + wordsOf (pool.ofKind kind) := by
  have inList : ∀ chunk ∈ pool.ofKind kind, chunk.kind = kind ∧ pool.Holds uses chunk :=
    fun chunk member => ⟨sound.filed.kind kind chunk member,
      sound.holds chunk (mem_chunks.mpr ⟨kind, member⟩)⟩
  unfold auditKind
  revert inList counted
  generalize pool.ofKind kind = chunks
  intro counted inList
  induction chunks generalizing words with
  | nil => exact rfl
  | cons head rest ih =>
    obtain ⟨isKind, holds⟩ := inList head List.mem_cons_self
    rw [wordsOf_cons] at counted
    rw [List.foldlM_cons]
    have step : Ensures excuse (do
        pool.auditFree kind head
        Count.add words head.size) fun total => total = words + head.size := by
      have checked : Ensures excuse (pool.auditFree kind head) fun _ => True := by
        unfold auditFree
        apply Ensures.bind (ensures_require fun _ => beq_iff_eq.mpr isKind)
        intro _ _
        apply Ensures.bind holds.sound.audit_ensures
        intro _ _
        apply Ensures.bind (ensures_require fun _ => holds.free)
        intro _ _
        exact (ensures_require fun _ => beq_iff_eq.mpr holds.isClass).mono fun _ _ => trivial
      apply Ensures.bind checked
      intro _ _
      exact (Count.add_ensures fun _ => by omega).mono fun _ both => both.1
    apply Ensures.bind step
    rintro total rfl
    apply (ih (by omega) fun chunk member => inList chunk (List.mem_cons_of_mem head member)).mono
    rintro result rfl
    rw [wordsOf_cons, Nat.add_assoc]

/-- The audit of a sound pool passes. -/
theorem Sound.audit_ensures (sound : pool.Sound uses) : Ensures excuse pool.audit fun _ => True := by
  have counted := sound.counted
  have words : wordsOf pool.chunks = wordsOf pool.specialized + wordsOf pool.small +
      wordsOf pool.medium + wordsOf pool.humongous := by
    simp only [Pool.chunks, Kind.all, List.flatMap_cons, List.flatMap_nil, wordsOf_append, ofKind,
      wordsOf_nil]
    omega
  rw [sound.words, words] at counted
  have total : Ensures excuse (Kind.all.foldlM pool.auditKind 0) fun total =>
      total = wordsOf pool.chunks := by
    unfold Kind.all
    simp only [List.foldlM_cons, List.foldlM_nil]
    apply Ensures.bind (sound.auditKind_ensures (by change 0 + wordsOf pool.specialized < _; omega))
    rintro first rfl
    apply Ensures.bind (sound.auditKind_ensures
      (by change 0 + wordsOf pool.specialized + wordsOf pool.small < _; omega))
    rintro second rfl
    apply Ensures.bind (sound.auditKind_ensures
      (by change 0 + wordsOf pool.specialized + wordsOf pool.small + wordsOf pool.medium < _; omega))
    rintro third rfl
    apply Ensures.bind (sound.auditKind_ensures
      (by change 0 + wordsOf pool.specialized + wordsOf pool.small + wordsOf pool.medium +
            wordsOf pool.humongous < _; omega))
    rintro fourth rfl
    rw [words, ← Nat.zero_add (wordsOf pool.specialized)]
    rfl
  unfold audit
  apply Ensures.bind total
  rintro total rfl
  apply Ensures.bind (ensures_require fun _ => beq_iff_eq.mpr sound.count.symm)
  intro _ _
  exact (ensures_require fun _ => beq_iff_eq.mpr sound.words.symm).mono fun _ _ => trivial

/-- Counting a chunk more changes the numbers alone. -/
theorem countAdded_ensures (counted : ¬excuse → pool.words + chunk.size < wordLimit) :
    Ensures excuse (pool.countAdded chunk) fun after =>
      after = { pool with words := pool.words + chunk.size, count := pool.count + 1 } ∧
        pool.words + chunk.size < wordLimit := by
  unfold countAdded
  apply Ensures.bind (Count.add_ensures counted)
  rintro words ⟨rfl, inside⟩
  exact ⟨rfl, inside⟩

/-- Counting a chunk less changes the numbers alone. -/
theorem countRemoved_ensures (words : chunk.size ≤ pool.words) (count : 0 < pool.count) :
    Ensures excuse (pool.countRemoved chunk) fun after =>
      after = { pool with words := pool.words - chunk.size, count := pool.count - 1 } := by
  unfold countRemoved
  apply Ensures.bind (ensures_require fun _ => decide_eq_true words)
  intro _ _
  apply Ensures.bind (ensures_require fun _ => decide_eq_true count)
  intro _ _
  rfl

/-- A sound pool stays sound where chunks are taken out and put in and the numbers follow. -/
theorem Sound.of_perm {taken put : List Chunk} (sound : pool.Sound uses) (alike : pool.Alike after)
    (filed : after.Filed) (perm : (taken ++ after.chunks).Perm (put ++ pool.chunks))
    (holds : ∀ chunk ∈ put, pool.Holds uses chunk)
    (count : after.count + taken.length = pool.count + put.length)
    (words : after.words + wordsOf taken = pool.words + wordsOf put)
    (counted : after.words < wordLimit) : after.Sound uses where
  filed := filed
  holds chunk member := by
    rcases List.mem_append.mp (perm.mem_iff.mp (List.mem_append_right taken member)) with
      inPut | inPool
    · exact (holds chunk inPut).of_alike alike
    · exact (sound.holds chunk inPool).of_alike alike
  count := by
    have lengths := perm.length_eq
    rw [List.length_append, List.length_append] at lengths
    have before := sound.count
    omega
  words := by
    have sums := wordsOf_perm perm
    rw [wordsOf_append, wordsOf_append] at sums
    have before := sound.words
    omega
  counted := counted

/-- A chunk that was taken out of a sound pool is still counted. -/
theorem Sound.still_counted (sound : pool.Sound uses) (without : pool.Without after [chunk]) :
    chunk.size ≤ after.words ∧ 0 < after.count := by
  have sums := wordsOf_perm without.perm
  have lengths := without.perm.length_eq
  rw [wordsOf_append, wordsOf_cons, wordsOf_nil] at sums
  rw [List.length_append, List.length_singleton] at lengths
  rw [without.words, without.count, sound.words, sound.count]
  omega

/-- A pool stays sound where a chunk is taken out and not counted any more. -/
theorem Sound.uncounted (sound : pool.Sound uses) (without : pool.Without after [chunk]) :
    Sound uses { after with words := after.words - chunk.size, count := after.count - 1 } := by
  obtain ⟨wordsLe, positive⟩ := sound.still_counted without
  have counted := sound.counted
  have words := without.words
  have count := without.count
  have numbered : after.Alike
      { after with words := after.words - chunk.size, count := after.count - 1 } := ⟨rfl, rfl, rfl⟩
  have perm : ([chunk] ++ after.chunks).Perm ([] ++ pool.chunks) := without.perm.symm
  apply sound.of_perm (without.toAlike.trans numbered) (without.filed.withNumbers _ _) perm
    (fun other member => absurd member List.not_mem_nil)
  · change after.count - 1 + 1 = pool.count + 0
    omega
  · change after.words - chunk.size + wordsOf [chunk] = pool.words + 0
    rw [wordsOf_cons, wordsOf_nil]
    omega
  · change after.words - chunk.size < wordLimit
    omega

/-- A pool stays sound where a chunk is counted and put in at a new place. -/
theorem Sound.push (sound : pool.Sound uses) (holds : pool.Holds uses chunk)
    (fresh : ∀ other ∈ pool.chunks, other.place ≠ chunk.place)
    (counted : pool.words + chunk.size < wordLimit)
    (isAfter : after =
      Pool.push { pool with words := pool.words + chunk.size, count := pool.count + 1 } chunk) :
    after.Sound uses ∧ pool.Alike after ∧ after.chunks.Perm (chunk :: pool.chunks) := by
  obtain ⟨pushed, pushedFiled⟩ := push_perm (sound.filed.withNumbers (pool.words + chunk.size)
    (pool.count + 1)) fresh
  rw [← isAfter] at pushed pushedFiled
  have words : after.words = pool.words + chunk.size := by
    rw [isAfter]
    exact words_withKind
  have count : after.count = pool.count + 1 := by
    rw [isAfter]
    exact count_withKind
  have numbered : pool.Alike
      { pool with words := pool.words + chunk.size, count := pool.count + 1 } := ⟨rfl, rfl, rfl⟩
  have alike : pool.Alike after := by
    rw [isAfter]
    exact numbered.trans alike_push
  have perm : ([] ++ after.chunks).Perm ([chunk] ++ pool.chunks) := pushed
  refine ⟨?_, alike, pushed⟩
  apply sound.of_perm alike pushedFiled perm (List.forall_mem_singleton.mpr holds)
  · rw [count]
    rfl
  · rw [words, wordsOf_cons]
    rfl
  · rw [words]
    exact counted

/-- The first chunk of the first list that has one is taken out. -/
theorem firstOf?_eq_some {kinds : List Kind} (filed : pool.Filed)
    (found : pool.firstOf? kinds = some (after, chunk)) :
    pool.Without after [chunk] ∧ chunk.kind ∈ kinds := by
  induction kinds with
  | nil => cases found
  | cons kind larger ih =>
    unfold firstOf? at found
    split at found
    · next head rest isList =>
      cases found
      have isPerm : (pool.ofKind kind).Perm (chunk :: rest) := by rw [isList]
      have isPart : rest.Sublist (pool.ofKind kind) := by
        rw [isList]
        exact List.sublist_cons_self chunk rest
      obtain ⟨perm, restFiled, isKind⟩ := removed_perm filed isPerm isPart
      exact ⟨⟨alike_withKind, perm, restFiled, words_withKind, count_withKind⟩,
        by rw [isKind]; exact List.mem_cons_self⟩
    · obtain ⟨without, inLarger⟩ := ih found
      exact ⟨without, List.mem_cons_of_mem kind inLarger⟩

/-- Where nothing is taken out, the pool holds no chunk of these kinds. -/
theorem firstOf?_eq_none {kinds : List Kind} (filed : pool.Filed)
    (nothing : pool.firstOf? kinds = none) : ∀ chunk ∈ pool.chunks, chunk.kind ∉ kinds := by
  intro chunk member
  induction kinds with
  | nil => exact List.not_mem_nil
  | cons kind larger ih =>
    unfold firstOf? at nothing
    split at nothing
    · cases nothing
    · next isEmpty =>
      rw [List.mem_cons, not_or]
      refine ⟨?_, ih nothing⟩
      intro isKind
      have inList := filed.mem_ofKind member
      rw [isKind, isEmpty] at inList
      exact absurd inList List.not_mem_nil

/-- The first chunk that passes a test is taken out of the list of a kind. -/
theorem takeFirst?_without {test : Chunk → Bool} (filed : pool.Filed)
    (found : takeFirst? test (pool.ofKind kind) = some (chunk, chunks)) :
    pool.Without (pool.withKind kind chunks) [chunk] ∧ chunk.kind = kind := by
  obtain ⟨_, perm⟩ := takeFirst?_eq_some found
  obtain ⟨wholePerm, restFiled, isKind⟩ := removed_perm filed perm (takeFirst?_sublist found)
  exact ⟨⟨alike_withKind, wholePerm, restFiled, words_withKind, count_withKind⟩, isKind⟩

end Pool

end CollectorMemory
