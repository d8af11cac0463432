import CollectorMemory.Node.Access
import CollectorMemory.Node.Carving
import CollectorMemory.Proofs.Lockstep
import CollectorMemory.Proofs.Node.Twin

/-!
# Twin nodes in lockstep

Most operations on a node write words but read none, so twin nodes perform them in lockstep: they
accept the same arguments, give the same chunks and stay twins. Where a node that is audited fills
payloads and its twin does not, this is all that is different.
-/

namespace CollectorMemory

variable {excuse : Prop}

namespace Words

variable {words other : Words} {offset length : Nat} {word : UInt64}

/-- Memories of one size are written to in lockstep, and stay of one size. -/
theorem write_lockstep (size : other.size = words.size) (offset : Nat) (data : List UInt64) :
    Lockstep excuse (fun after after' => after'.size = after.size) (words.write offset data)
      (other.write offset data) := by
  unfold write
  rw [size]
  apply lockstep_same
  intro _ _
  change (other.store offset data).size = (words.store offset data).size
  rw [size_store, size_store, size]

/-- Writing words keeps the size of the memory. -/
theorem write_size (data : List UInt64) :
    Ensures True (words.write offset data) fun after => after.size = words.size := by
  unfold write
  apply Ensures.bind (ensures_excused _)
  intro _ _
  exact size_store offset data

/-- Filling words keeps the size of the memory, whether it is asked for or not. -/
theorem fillIf_size (asked : Bool) :
    Ensures True (words.fillIf asked offset length word) fun after => after.size = words.size := by
  unfold fillIf
  cases asked with
  | false => rfl
  | true => exact write_size _

end Words

namespace Node

variable {node twin : Node}

/-- A node is its own twin. -/
theorem Twin.refl (node : Node) : node.Twin node := ⟨node.audited, node.words, rfl, rfl⟩

/-- Twins are twins of each other. -/
theorem Twin.symm (twins : node.Twin twin) : twin.Twin node := by
  obtain ⟨audited, words, rfl, same⟩ := twins
  exact ⟨node.audited, node.words, rfl, same.symm⟩

/-- Twins of a twin are twins. -/
theorem Twin.trans {last : Node} (first : node.Twin twin) (second : twin.Twin last) :
    node.Twin last := by
  obtain ⟨audited, words, rfl, same⟩ := first
  obtain ⟨audited', words', rfl, same'⟩ := second
  exact ⟨audited', words', rfl, same'.trans same⟩

/-- Twins have the same handle. -/
theorem Twin.id (twins : node.Twin twin) : twin.id = node.id := by
  obtain ⟨_, _, rfl, _⟩ := twins
  rfl

/-- Twins have the same chunk sizes. -/
theorem Twin.sizes (twins : node.Twin twin) : twin.sizes = node.sizes := by
  obtain ⟨_, _, rfl, _⟩ := twins
  rfl

/-- Twins belong to the same space. -/
theorem Twin.isClass (twins : node.Twin twin) : twin.isClass = node.isClass := by
  obtain ⟨_, _, rfl, _⟩ := twins
  rfl

/-- Twins are carved up to the same top. -/
theorem Twin.top (twins : node.Twin twin) : twin.top = node.top := by
  obtain ⟨_, _, rfl, _⟩ := twins
  rfl

/-- Twins reserve the same number of words. -/
theorem Twin.reserved (twins : node.Twin twin) : twin.reserved = node.reserved := by
  obtain ⟨_, _, rfl, _⟩ := twins
  rfl

/-- Twins commit the same number of words. -/
theorem Twin.committed (twins : node.Twin twin) : twin.committed = node.committed := by
  obtain ⟨_, _, rfl, same⟩ := twins
  exact same

/-- Twins have the same number of words left. -/
theorem Twin.uncarved (twins : node.Twin twin) : twin.uncarved = node.uncarved := by
  obtain ⟨_, _, rfl, same⟩ := twins
  exact congrArg (· - node.top) same

/-- Twins have the same chunks in use. -/
theorem Twin.chunksInUse (twins : node.Twin twin) : twin.chunksInUse = node.chunksInUse := by
  obtain ⟨_, _, rfl, _⟩ := twins
  rfl

/-- Twins stay twins with one chunk in use more. -/
theorem Twin.addInUse (twins : node.Twin twin) : node.addInUse.Twin twin.addInUse := by
  obtain ⟨audited, words, rfl, same⟩ := twins
  exact ⟨audited, words, rfl, same⟩

/-- Twins stay twins with one chunk in use less. -/
theorem Twin.dropInUse (twins : node.Twin twin) :
    Lockstep excuse Node.Twin node.dropInUse twin.dropInUse := by
  obtain ⟨audited, words, rfl, same⟩ := twins
  unfold Node.dropInUse
  apply lockstep_same
  intro _ _
  exact ⟨audited, words, rfl, same⟩

/-- Twins reserve in lockstep. -/
theorem reserve_lockstep (id : NodeId) (words : Nat) (sizes : ChunkSizes) (audited audited' : Bool) :
    Lockstep excuse Node.Twin (Node.reserve id words sizes audited).outcome
      (Node.reserve id words sizes audited').outcome := by
  unfold Node.reserve
  apply lockstep_sameRun
  intro _ _
  apply lockstep_note
  apply lockstep_sameRun
  intro map _
  exact ⟨audited', #[], rfl, rfl⟩

/-- Twins commit words in lockstep. -/
theorem Twin.expand (twins : node.Twin twin) (least preferred : Nat) :
    Lockstep excuse (Option.Rel Node.Twin) (node.expand least preferred).outcome
      (twin.expand least preferred).outcome := by
  have committed := twins.committed
  obtain ⟨audited, words, rfl, same⟩ := twins
  unfold Node.expand
  rw [committed]
  dsimp only
  split
  · exact Option.Rel.none
  · apply lockstep_sameRun
    intro wanted _
    apply lockstep_note
    refine Option.Rel.some ⟨audited, _, rfl, ?_⟩
    rw [Array.size_append, Array.size_append, same]

/-- Twins carve chunks in lockstep. -/
theorem Twin.carve (twins : node.Twin twin) (kind : Kind) (size : Nat) (origin : Origin) :
    Lockstep True (Alongside Node.Twin) (node.carve kind size origin)
      (twin.carve kind size origin) := by
  obtain ⟨audited, words, rfl, same⟩ := twins
  unfold Node.carve
  apply lockstep_same
  intro top _
  apply Lockstep.bind (lockstep_checks _ _)
  intro _ _ _
  apply lockstep_same
  intro fresh _
  apply lockstep_same
  intro started _
  apply lockstep_same
  intro map _
  apply Lockstep.bind (Words.write_lockstep same _ _)
  intro headed headed' sameHeaded
  apply Lockstep.bind (lockstep_of_ensures (Words.fillIf_size _) (Words.fillIf_size _))
  intro filled filled' ⟨size, size'⟩
  exact ⟨⟨audited, filled', rfl, size'.trans (sameHeaded.trans size.symm)⟩, rfl⟩

/-- Twins tag chunks in lockstep. -/
theorem Twin.setInUse (twins : node.Twin twin) (chunk : Chunk) (inUse : Bool) :
    Lockstep excuse (Alongside Node.Twin) (node.setInUse chunk inUse)
      (twin.setInUse chunk inUse) := by
  obtain ⟨audited, words, rfl, same⟩ := twins
  unfold Node.setInUse
  apply lockstep_same
  intro _ _
  apply Lockstep.bind (Words.write_lockstep same _ _)
  intro headed headed' sameHeaded
  apply lockstep_same
  intro map _
  exact ⟨⟨audited, headed', rfl, sameHeaded⟩, rfl⟩

/-- Overwriting a payload where this is asked for leaves a twin. -/
theorem fillPayloadIf_twin (asked : Bool) (chunk : Chunk) (word : UInt64) :
    Ensures True (node.fillPayloadIf asked chunk word) node.Twin := by
  unfold fillPayloadIf
  cases asked with
  | false => exact Twin.refl node
  | true =>
    apply Ensures.bind (ensures_excused _)
    intro _ _
    apply Ensures.bind (Words.write_size _)
    intro words same
    exact ⟨node.audited, words, rfl, same⟩

/-- Twins merge the same areas. -/
theorem Twin.canMerge (twins : node.Twin twin) (start size : Nat) :
    twin.canMerge start size = node.canMerge start size := by
  obtain ⟨_, _, rfl, _⟩ := twins
  rfl

/-- Sentinels are overwritten in lockstep in memories of one size. -/
theorem absorb_lockstep {words other : Words} (size : other.size = words.size)
    (chunks : List Chunk) :
    Lockstep excuse (fun after after' => after'.size = after.size) (absorb words chunks)
      (absorb other chunks) := by
  induction chunks generalizing words other with
  | nil => exact size
  | cons head rest ih =>
    unfold absorb
    apply lockstep_same
    intro _ _
    apply Lockstep.bind (Words.write_lockstep size _ _)
    intro first first' sameFirst
    exact ih sameFirst

/-- Twins merge chunks in lockstep. -/
theorem Twin.merge (twins : node.Twin twin) (start : Nat) (target : Kind)
    (absorbed : List Chunk) :
    Lockstep excuse (Alongside Node.Twin) (node.merge start target absorbed)
      (twin.merge start target absorbed) := by
  obtain ⟨audited, words, rfl, same⟩ := twins
  unfold Node.merge
  apply lockstep_same
  intro size _
  apply lockstep_same
  intro found _
  apply lockstep_same
  intro _ _
  apply Lockstep.bind (absorb_lockstep same absorbed)
  intro emptied emptied' sameEmptied
  apply lockstep_same
  intro chunk _
  apply lockstep_same
  intro cleared _
  apply lockstep_same
  intro map _
  apply Lockstep.bind (Words.write_lockstep sameEmptied _ _)
  intro headed headed' sameHeaded
  exact ⟨⟨audited, headed', rfl, sameHeaded⟩, rfl⟩

/-- Twins split into the same kinds. -/
theorem Twin.fittingKind (twins : node.Twin twin) (offset : Nat) (target : Kind)
    (candidates : List Kind) :
    twin.fittingKind offset target candidates = node.fittingKind offset target candidates := by
  obtain ⟨_, _, rfl, _⟩ := twins
  induction candidates with
  | nil => rfl
  | cons head rest ih =>
    unfold Node.fittingKind
    rw [ih]

/-- Twins place pieces in lockstep. -/
theorem Twin.placePiece (twins : node.Twin twin) (kind : Kind) (size offset : Nat) :
    Lockstep excuse (Alongside Node.Twin) (node.placePiece kind size offset)
      (twin.placePiece kind size offset) := by
  obtain ⟨audited, words, rfl, same⟩ := twins
  unfold Node.placePiece
  apply lockstep_same
  intro chunk _
  apply lockstep_same
  intro map _
  apply Lockstep.bind (Words.write_lockstep same _ _)
  intro headed headed' sameHeaded
  exact ⟨⟨audited, headed', rfl, sameHeaded⟩, rfl⟩

/-- What is left of a split chunk is covered piece by piece. -/
theorem coverRest_eq (larger target : Kind) (stop offset : Nat) :
    node.coverRest larger target stop offset = if offset < stop then do
        let kind ← node.fittingKind offset target larger.below
        let size ← node.sizes.fixedSize kind
        require (offset + size ≤ stop) .assertion
        let (placed, piece) ← node.placePiece kind size offset
        let (covered, rest) ← placed.coverRest larger target stop (offset + size)
        return (covered, piece :: rest)
      else .ok (node, []) := by
  rw [Node.coverRest]
  congr 2
  funext kind
  split
  · next fault failed => rw [failed]; rfl
  · next size fixed => rw [fixed]; rfl

/-- Twins cover what is left of a split chunk in lockstep. -/
theorem Twin.coverRest (twins : node.Twin twin) (larger target : Kind) (stop offset : Nat) :
    Lockstep excuse (Alongside Node.Twin) (node.coverRest larger target stop offset)
      (twin.coverRest larger target stop offset) := by
  induction left : stop - offset using Nat.strong_induction_on generalizing node twin offset with
  | _ left ih =>
    rw [coverRest_eq, coverRest_eq]
    by_cases more : offset < stop
    · rw [if_pos more, if_pos more, twins.fittingKind, twins.sizes]
      apply lockstep_same
      intro kind _
      apply lockstep_same
      intro size fixed
      have positive := node.sizes.pos_of_fixedSize fixed
      apply lockstep_same
      intro _ _
      apply Lockstep.bind (twins.placePiece kind size offset)
      intro (placed, piece) (placed', piece') ⟨twinsPlaced, same⟩
      cases same
      apply Lockstep.bind (ih (stop - (offset + size)) (by omega) twinsPlaced (offset + size) rfl)
      intro (covered, rest) (covered', rest') ⟨twinsCovered, same⟩
      cases same
      exact ⟨twinsCovered, rfl⟩
    · rw [if_neg more, if_neg more]
      exact ⟨twins, rfl⟩

/-- Twins split chunks in lockstep. -/
theorem Twin.split (twins : node.Twin twin) (larger : Chunk) (target : Kind) :
    Lockstep excuse (Alongside Node.Twin) (node.split larger target)
      (twin.split larger target) := by
  obtain ⟨audited, words, rfl, same⟩ := twins
  unfold Node.split
  apply lockstep_same
  intro _ _
  apply lockstep_same
  intro size _
  apply lockstep_same
  intro whole _
  apply lockstep_same
  intro _ _
  apply Lockstep.bind (Words.write_lockstep same _ _)
  intro emptied emptied' sameEmptied
  apply lockstep_same
  intro chunk _
  apply Lockstep.bind (Words.write_lockstep sameEmptied _ _)
  intro headed headed' sameHeaded
  apply lockstep_same
  intro second _
  have twins : Node.Twin { node with words := headed } { node with audited, words := headed' } :=
    ⟨audited, headed', rfl, sameHeaded⟩
  apply Lockstep.bind (twins.coverRest _ _ _ _)
  intro (after, pieces) (after', pieces') ⟨twinsAfter, same⟩
  cases same
  exact ⟨twinsAfter, rfl⟩

/-- Twins need the same padding. -/
theorem Twin.paddingSize (twins : node.Twin twin) (here : Nat) :
    twin.paddingSize here = node.paddingSize here := by
  obtain ⟨_, _, rfl, _⟩ := twins
  rfl

/-- Twins carve padding in lockstep. -/
theorem Twin.padFrom (twins : node.Twin twin) (stop here : Nat) :
    Lockstep True (Alongside Node.Twin) (node.padFrom stop here) (twin.padFrom stop here) := by
  induction left : stop - here using Nat.strong_induction_on generalizing node twin here with
  | _ left ih =>
    rw [Node.padFrom, Node.padFrom]
    by_cases more : here < stop
    · rw [if_pos more, if_pos more, twins.paddingSize, twins.sizes]
      apply lockstep_same
      intro (⟨size, positive⟩) _
      apply lockstep_same
      intro _ _
      apply lockstep_same
      intro kind _
      apply Lockstep.bind (twins.carve kind size .pad)
      intro (padded, chunk) (padded', chunk') ⟨twinsPadded, same⟩
      cases same
      apply Lockstep.bind (ih (stop - (here + size)) (by omega) twinsPadded (here + size) rfl)
      intro (after, rest) (after', rest') ⟨twinsAfter, same⟩
      cases same
      exact ⟨twinsAfter, rfl⟩
    · rw [if_neg more, if_neg more]
      exact ⟨twins, rfl⟩

/-- Twins allow the same accesses. -/
theorem Twin.checkAccess (twins : node.Twin twin) (place : Location) (length : Nat) :
    twin.checkAccess place length = node.checkAccess place length := by
  obtain ⟨_, _, rfl, _⟩ := twins
  rfl

/-- Twins read the same numbers of words in lockstep. -/
theorem Twin.readWords (twins : node.Twin twin) (place : Location) (length : Nat) :
    Lockstep excuse (fun _ _ => True) (node.readWords place length)
      (twin.readWords place length) := by
  unfold Node.readWords
  rw [twins.checkAccess]
  apply lockstep_same
  intro _ _
  obtain ⟨audited, words, rfl, same⟩ := twins
  unfold Words.slice
  rw [same]
  apply lockstep_same
  intro _ _
  trivial

/-- Twins are written to in lockstep. -/
theorem Twin.writeWords (twins : node.Twin twin) (place : Location) (data : List UInt64) :
    Lockstep excuse Node.Twin (node.writeWords place data) (twin.writeWords place data) := by
  unfold Node.writeWords
  rw [twins.checkAccess]
  apply lockstep_same
  intro _ _
  obtain ⟨audited, words, rfl, same⟩ := twins
  apply Lockstep.bind (Words.write_lockstep same _ _)
  intro written written' sameWritten
  exact ⟨audited, written', rfl, sameWritten⟩

end Node

end CollectorMemory
