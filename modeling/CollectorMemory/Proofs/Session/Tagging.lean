import CollectorMemory.Proofs.Allocator.Tagged
import CollectorMemory.Proofs.Session.Isolation

/-!
# Sessions in which held chunks are tagged

Users perform operations as before, and they tag the chunks that they hold free or in use at any time and
as often as they like. Beside every session that they reach stands a plain one, in which no chunk is
tagged: it is sound, and the two differ in the tags alone. An operation is performed in both, and tagging
a chunk is not seen in the plain session at all.
-/

namespace CollectorMemory

variable {uses : Nat} {tags tags' : Location → Bool} {allocator allocator' : Allocator}
  {held : List Chunk} {chunk other : Chunk} {holding holding' : Holding} {plain session : Session}
  {front back : List Holding} {index words : Nat} {place : Location} {data : List UInt64}
  {space : Space}

/-- The holding with another free flag of its chunk. -/
def Holding.withFree (holding : Holding) (isFree : Bool) : Holding :=
  { holding with chunk := holding.chunk.withFree isFree }

/-- What users do who tag the chunks that they hold. -/
inductive Action where
  /-- Perform an operation. -/
  | operate (operation : Operation)
  /-- Tag a chunk that is held in use, or free. -/
  | tag (index : Nat) (inUse : Bool)

namespace Session

/-- Tag a chunk that is held, and keep its handle. -/
def tag (session : Session) (index : Nat) (inUse : Bool) : Except Fault Session :=
  session.withHolding index fun holding => do
    let (allocator, chunk) ← session.allocator.setInUse holding.chunk inUse
    return { allocator, held := session.held.set index { holding with chunk } }

/-- Do one thing. -/
def act (session : Session) : Action → Except Fault Session
  | .operate operation => session.perform operation
  | .tag index inUse => session.tag index inUse

/-- Do one thing after the other. -/
def actAll (session : Session) (actions : List Action) : Except Fault Session :=
  actions.foldlM act session

/-- A plain session beside one that differs in the tags alone, which are the free flags of the chunks
that are held. -/
structure Tagged (tags : Location → Bool) (plain session : Session) : Prop where
  /-- The same chunks are held, but all of them are in use. -/
  held : plain.held = session.held.map fun holding => holding.withFree false
  /-- The allocators differ in the tags alone. -/
  allocator : plain.allocator.Tagged tags session.allocator
  /-- The free flag of a chunk is the tag of its place. -/
  flags : ∀ holding ∈ session.held, tags holding.chunk.place = holding.chunk.isFree
  /-- All tags are at chunks that are held. -/
  anchored : ∀ place, tags place = true → ∃ holding ∈ session.held, holding.chunk.place = place

end Session

/-- Chunks that are held start at different places. -/
theorem Allocator.Sound.place_ne (sound : allocator.Sound uses (chunk :: held))
    (member : other ∈ held) : other.place ≠ chunk.place := by
  intro same
  have apart := sound.apart member (congrArg Location.node same).symm
  have bottom : other.bottom = chunk.bottom := congrArg Location.offset same
  obtain ⟨_, _, _, _, owned, _⟩ := sound.exists_node List.mem_cons_self
  obtain ⟨_, _, _, _, otherOwned, _⟩ := sound.exists_node (List.mem_cons_of_mem chunk member)
  have nonempty : chunk.bottom < chunk.stop := owned.sound.block.bottom_lt_stop
  have otherNonempty : other.bottom < other.stop := otherOwned.sound.block.bottom_lt_stop
  omega

/-- Words are handed out whatever the free flag is. -/
theorem Chunk.allocate_withFree (chunk : Chunk) (words : Nat) :
    Simulates
      (Option.Rel fun (place, after) (place', after') => place' = place ∧
        after = after'.withFree false ∧ after'.place = chunk.place ∧ after'.isFree = chunk.isFree)
      ((chunk.withFree false).allocate words) (chunk.allocate words) := by
  unfold Chunk.allocate
  change Simulates _ (chunk.freeWords >>= _) (chunk.freeWords >>= _)
  apply simulates_same
  intro left _
  split
  · exact simulates_ok Option.Rel.none
  · change Simulates _ (Count.add chunk.top words >>= _) (Count.add chunk.top words >>= _)
    apply simulates_same
    intro top _
    exact simulates_ok (Option.Rel.some ⟨rfl, rfl, rfl, rfl⟩)

namespace Session

/-- A sound session differs from itself in no tags. -/
theorem Sound.tagged_self (sound : session.Sound uses) :
    session.Tagged (fun _ => false) session := by
  have used : ∀ holding ∈ session.held, holding.chunk.isFree = false := by
    intro holding member
    obtain ⟨_, _, _, _, _, used, _⟩ := sound.allocator.exists_node (mem_chunks member)
    exact used
  refine ⟨?_, sound.allocator.tagged_self fun _ => rfl, fun holding member =>
    (used holding member).symm, fun _ isTagged => absurd isTagged Bool.false_ne_true⟩
  have same : ∀ holding ∈ session.held, holding.withFree false = holding := by
    intro holding member
    unfold Holding.withFree Chunk.withFree
    rw [← used holding member]
  rw [List.map_congr_left same, List.map_id']

/-- The same is done with the holding at a position in both sessions, or nothing is done. -/
theorem Tagged.withHolding (tagged : plain.Tagged tags session)
    {action action' : Holding → Except Fault Session}
    (acts : ∀ front holding back, session.held = front ++ holding :: back → index = front.length →
      Simulates (Tagged tags) (action (holding.withFree false)) (action' holding)) :
    Simulates (Tagged tags) (plain.withHolding index action) (session.withHolding index action') := by
  unfold Session.withHolding
  rw [tagged.held, List.getElem?_map]
  cases found : session.held[index]? with
  | none => exact simulates_ok tagged
  | some holding =>
    obtain ⟨front, back, split, isIndex⟩ := exists_split found
    exact acts front holding back split isIndex

/-- The plain session has the chunk of a holding in use. -/
theorem Tagged.mem_chunks (tagged : plain.Tagged tags session) (member : holding ∈ session.held) :
    holding.chunk.withFree false ∈ plain.chunks := by
  unfold chunks
  rw [tagged.held, List.map_map]
  exact List.mem_map_of_mem member

/-- The plain session is split where the other one is. -/
theorem Tagged.split (tagged : plain.Tagged tags session)
    (split : session.held = front ++ holding :: back) :
    plain.held = front.map (fun other => other.withFree false) ++ holding.withFree false ::
      back.map fun other => other.withFree false := by
  rw [tagged.held, split, List.map_append, List.map_cons]

/-- The chunks that are held start at different places. -/
theorem Tagged.place_ne (tagged : plain.Tagged tags session) (sound : plain.Sound uses)
    (split : session.held = front ++ holding :: back) :
    ∀ other ∈ front ++ back, other.chunk.place ≠ holding.chunk.place := by
  intro other member
  have first := sound.allocator_cons (tagged.split split)
  rw [← List.map_append, List.map_map] at first
  have isThere : other.chunk.withFree false ∈
      (front ++ back).map (Holding.chunk ∘ fun other => other.withFree false) :=
    List.mem_map.mpr ⟨other, member, rfl⟩
  have differs := first.place_ne isThere
  exact differs

/-- Sessions differ in the tags alone with another holding of a chunk at the same place, which may have
another tag. -/
theorem Tagged.replace (tagged : plain.Tagged tags session) (sound : plain.Sound uses)
    (split : session.held = front ++ holding :: back)
    (allocators : allocator.Tagged tags' allocator') (same : holding'.chunk.place = holding.chunk.place)
    (flag : tags' holding.chunk.place = holding'.chunk.isFree)
    (elsewhere : ∀ place, place ≠ holding.chunk.place → tags' place = tags place) :
    Tagged tags' ⟨allocator, plain.held.set front.length (holding'.withFree false)⟩
      ⟨allocator', session.held.set front.length holding'⟩ := by
  have differs := tagged.place_ne sound split
  refine ⟨?_, allocators, ?_, ?_⟩
  · change plain.held.set _ _ = (session.held.set _ _).map _
    rw [tagged.held, List.map_set]
  · change ∀ other ∈ session.held.set _ _, _
    rw [set_held split]
    intro other member
    rcases List.mem_cons.mp (List.perm_middle.mem_iff.mp member) with isHolding | inRest
    · rw [isHolding, same]
      exact flag
    · rw [elsewhere _ (differs other inRest)]
      apply tagged.flags
      rw [split]
      exact List.perm_middle.mem_iff.mpr (List.mem_cons_of_mem holding inRest)
  · change ∀ place, _ → ∃ other ∈ session.held.set _ _, _
    rw [set_held split]
    intro place isTagged
    by_cases here : place = holding.chunk.place
    · exact ⟨holding', List.mem_append_right front List.mem_cons_self, same.trans here.symm⟩
    · rw [elsewhere place here] at isTagged
      obtain ⟨other, member, isPlace⟩ := tagged.anchored place isTagged
      rw [split] at member
      rcases List.mem_cons.mp (List.perm_middle.mem_iff.mp member) with isHolding | inRest
      · rw [← isPlace, isHolding] at here
        exact absurd rfl here
      · exact ⟨other, List.perm_middle.mem_iff.mpr (List.mem_cons_of_mem holding' inRest), isPlace⟩

/-- The tags in a space are at chunks that the plain session holds. -/
theorem Tagged.tagsHeld (tagged : plain.Tagged tags session) (space : Space) :
    TagsHeld tags space plain.chunks := by
  intro place isTagged _
  obtain ⟨holding, member, isPlace⟩ := tagged.anchored place isTagged
  exact ⟨_, tagged.mem_chunks member, isPlace⟩

/-- A chunk that is allocated is allocated in the plain session. -/
theorem Tagged.allocate {size : Nat} (tagged : plain.Tagged tags session) (sound : plain.Sound uses)
    (bounded : plain.allocator.Bounded)
    (limited : (plain.allocator.arena space).list.limit < Header.sizeLimit) :
    Simulates (Tagged tags) (plain.perform (.allocate space size))
      (session.perform (.allocate space size)) := by
  have short : size ≤ (plain.allocator.arena space).list.limit → size < Header.sizeLimit :=
    fun sizeLe => Nat.lt_of_le_of_lt sizeLe limited
  unfold perform
  apply Simulates.bind ((tagged.allocator.allocate sound.allocator bounded tagged.tagsHeld
    short).known (sound.allocator.allocate_ensures (absurd trivial) (absurd trivial) (absurd trivial)
    (absurd trivial) short (absurd trivial)) (ensures_excused _))
  intro (result, after) (result', after') ⟨⟨same, allocators⟩, ⟨_, kind, _, ends⟩, _⟩
  cases same
  cases result with
  | error failure => exact simulates_ok { tagged with allocator := allocators }
  | ok chunk =>
    obtain ⟨soundAfter, _⟩ := ends
    obtain ⟨_, _, _, _, _, used, _⟩ := soundAfter.exists_node List.mem_cons_self
    have fresh : (Holding.fresh chunk).withFree false = Holding.fresh chunk := by
      unfold Holding.withFree Holding.fresh Chunk.withFree
      rw [← used]
    have untagged : tags chunk.place = false := by
      rw [← Bool.not_eq_true]
      intro isTagged
      obtain ⟨other, member, isPlace⟩ := tagged.anchored _ isTagged
      exact soundAfter.place_ne (tagged.mem_chunks member) isPlace
    apply simulates_ok
    refine ⟨?_, allocators, ?_, ?_⟩
    · change plain.held ++ _ = (session.held ++ _).map _
      rw [tagged.held, List.map_append, List.map_singleton, fresh]
    · intro other member
      rcases List.mem_append.mp member with inHeld | isNew
      · exact tagged.flags other inHeld
      · rw [List.mem_singleton.mp isNew]
        exact untagged.trans used.symm
    · intro place isTagged
      obtain ⟨other, member, isPlace⟩ := tagged.anchored place isTagged
      exact ⟨other, List.mem_append_left _ member, isPlace⟩

/-- A chunk that is put back is not tagged free, and is put back in the plain session. -/
theorem Tagged.putBack (tagged : plain.Tagged tags session) (sound : plain.Sound uses)
    (bounded : plain.allocator.Bounded) :
    Simulates (Tagged tags) (plain.perform (.putBack index))
      (session.perform (.putBack index)) := by
  apply tagged.withHolding
  intro front holding back split isIndex after done
  obtain ⟨allocator', isOutcome, isAfter⟩ := bind_eq_ok_iff.mp done
  have used := Allocator.putBack_used.of_ok isOutcome
  have same : holding.chunk.withFree false = holding.chunk := by
    unfold Chunk.withFree
    rw [← used]
  have member : holding ∈ session.held := by
    rw [split]
    exact List.mem_append_right front List.mem_cons_self
  have untagged := (tagged.flags holding member).trans used
  have first := sound.allocator_cons (tagged.split split)
  change plain.allocator.Sound uses (holding.chunk.withFree false :: _) at first
  rw [same] at first
  obtain ⟨allocator, isPlain, allocators⟩ :=
    tagged.allocator.putBack first bounded untagged allocator' isOutcome
  refine ⟨⟨allocator, plain.held.eraseIdx index⟩, ?_, ?_⟩
  · apply bind_eq_ok_iff.mpr
    refine ⟨allocator, ?_, rfl⟩
    change (plain.allocator.putBack (holding.chunk.withFree false)).outcome = _
    rw [same]
    exact isPlain
  cases isAfter
  refine ⟨?_, allocators, ?_, ?_⟩
  · change plain.held.eraseIdx _ = (session.held.eraseIdx _).map _
    rw [tagged.held, List.eraseIdx_map]
  · intro other inRest
    exact tagged.flags other (List.mem_of_mem_eraseIdx inRest)
  · change ∀ place, _ → ∃ other ∈ session.held.eraseIdx _, _
    rw [isIndex, eraseIdx_held split]
    intro place isTagged
    obtain ⟨other, inHeld, isPlace⟩ := tagged.anchored place isTagged
    rw [split] at inHeld
    rcases List.mem_cons.mp (List.perm_middle.mem_iff.mp inHeld) with isHolding | inRest
    · rw [← isPlace, isHolding, untagged] at isTagged
      cases isTagged
    · exact ⟨other, inRest, isPlace⟩

/-- Words that are handed out are handed out in the plain session. -/
theorem Tagged.grant (tagged : plain.Tagged tags session) (sound : plain.Sound uses) :
    Simulates (Tagged tags) (plain.perform (.grant index words))
      (session.perform (.grant index words)) := by
  apply tagged.withHolding
  intro front holding back split isIndex
  subst isIndex
  have member : holding ∈ session.held := by
    rw [split]
    exact List.mem_append_right front List.mem_cons_self
  apply Simulates.bind (holding.chunk.allocate_withFree words)
  intro found found' both
  cases both with
  | none => exact simulates_ok tagged
  | @some taken taken' both =>
    obtain ⟨place, chunk⟩ := taken
    obtain ⟨place', chunk'⟩ := taken'
    obtain ⟨samePlace, isChunk, sameStart, sameFlag⟩ := both
    cases samePlace
    cases isChunk
    apply simulates_ok
    let granted := holding.grant chunk' place.offset words
    exact tagged.replace sound split tagged.allocator (show granted.chunk.place = _ from sameStart)
      ((tagged.flags holding member).trans sameFlag.symm) fun _ _ => rfl

/-- Words that are written are written in the plain session. -/
theorem Tagged.write (tagged : plain.Tagged tags session) (sound : plain.Sound uses) :
    Simulates (Tagged tags) (plain.perform (.write index place data))
      (session.perform (.write index place data)) := by
  apply tagged.withHolding
  intro front holding back split isIndex
  subst isIndex
  have member : holding ∈ session.held := by
    rw [split]
    exact List.mem_append_right front List.mem_cons_self
  apply Simulates.bind (tagged.allocator.writeWords (sound.allocator_cons (tagged.split split)))
  intro allocator allocator' allocators
  apply simulates_ok
  let stored := holding.store place.offset data
  exact tagged.replace sound split allocators (show stored.chunk.place = _ from rfl)
    (tagged.flags holding member) fun _ _ => rfl

/-- A space that is purged is purged in the plain session. -/
theorem Tagged.purge (tagged : plain.Tagged tags session) :
    Simulates (Tagged tags) (plain.perform (.purge space)) (session.perform (.purge space)) := by
  apply Simulates.bind (tagged.allocator.purge space)
  intro (purged, after) (purged', after') ⟨_, allocators⟩
  exact simulates_ok { tagged with allocator := allocators }

end Session

end CollectorMemory
