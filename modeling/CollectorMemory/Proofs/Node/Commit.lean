import CollectorMemory.Proofs.Node.Growth
import Mathlib.Order.Bounds.Basic

/-!
# Committing words of a node

Committing asks for a least number of words and prefers a number that may be larger. It is declined
exactly if fewer words than the least number are left. Otherwise the larger of the two numbers is
rounded up to the smallest chunk size and cut at what is left. The rounding comes before the cut: a
preference so close to the largest count that its next multiple is none stops the operation, though
the cut would have made it harmless.
-/

namespace CollectorMemory.Node

variable {node : Node} {least preferred growth amount : Nat}

/-- What committing a number of words leaves of a node. -/
structure Commits (amount : Nat) (node after : Node) : Prop where
  /-- The committed words are that many more. -/
  committed : after.committed = node.committed + amount
  /-- The words that are new are zero. -/
  zero : ∀ offset, node.committed ≤ offset → offset < after.committed → after.words[offset]? = some 0
  /-- All words that were committed before stay. -/
  kept : ∀ offset < node.committed, after.words[offset]? = node.words[offset]?
  /-- Nothing but the words changes: not the top, not the map, not the number of chunks in use. -/
  others : after = { node with words := after.words }

/-- The node with a number of words more that are zero. -/
def withZeros (node : Node) (amount : Nat) : Node :=
  { node with words := node.words ++ Array.replicate amount 0 }

/-- Appending words that are zero commits them. -/
theorem commits_withZeros (node : Node) (amount : Nat) : Commits amount node (node.withZeros amount) := by
  have committed : (node.withZeros amount).committed = node.committed + amount := by
    change (node.words ++ Array.replicate amount 0).size = _
    rw [Array.size_append, Array.size_replicate]
    rfl
  refine ⟨committed, ?_, ?_, rfl⟩
  · intro offset lower upper
    have inside : offset - node.words.size < amount := by
      change node.words.size ≤ offset at lower
      rw [committed] at upper
      change offset < node.words.size + amount at upper
      omega
    change (node.words ++ Array.replicate amount 0)[offset]? = _
    rw [Array.getElem?_append_right lower, Array.getElem?_replicate, if_pos inside]
  · intro offset lower
    exact Array.getElem?_append_left lower

/-- What committing comes to: it is declined, or it stops at the rounding, or words are added. -/
theorem expand_outcome (node : Node) (least preferred : Nat) :
    (node.expand least preferred).outcome =
      if node.reserved - node.committed < least then .ok none
      else
        let wanted := Count.nextMultiple (max preferred least) node.sizes.specialized
        if wanted < wordLimit then
          .ok (some (node.withZeros (min wanted (node.reserved - node.committed))))
        else .error .overflow := by
  unfold Node.expand
  by_cases few : node.reserved - node.committed < least
  · simp only [if_pos few]
    rfl
  · simp only [if_neg few, Run.outcome_bind, Run.outcome_liftM,
      Count.roundUp_eq_check _ node.sizes.specialized_pos]
    unfold Count.check
    split <;> rfl

/-- A next multiple that is no count is due to the preference alone: it is less than a step below the
largest count. -/
theorem preferred_of_beyond (whole : node.reserved % node.sizes.specialized = 0)
    (short : node.reserved < 2 ^ 56) (enough : least ≤ node.reserved - node.committed)
    (beyond : wordLimit ≤ Count.nextMultiple (max preferred least) node.sizes.specialized) :
    wordLimit < preferred + node.sizes.specialized := by
  have upper := (Count.nextMultiple_bounds (max preferred least) node.sizes.specialized_pos).2
  rcases Nat.le_total least preferred with isPreferred | isLeast
  · rw [Nat.max_eq_left isPreferred] at upper beyond
    omega
  · -- The least number is a count of words of the node, and so is its next multiple.
    rw [Nat.max_eq_right isLeast] at beyond
    have inNode : Count.nextMultiple least node.sizes.specialized ≤ node.reserved :=
      Count.nextMultiple_le node.sizes.specialized_pos whole (by omega)
    have isLimit : wordLimit = 2 ^ 64 := by decide
    omega

/-- Committing is declined exactly if fewer words than the least number are left, and it stops exactly
if the next multiple of the larger number is no count, for which the preference has to be within one
smallest chunk of the limit of counts. In all other cases it commits that multiple, or all words that
are left if these are fewer. -/
theorem expand_honours (whole : node.reserved % node.sizes.specialized = 0)
    (committedWhole : node.committed % node.sizes.specialized = 0)
    (inside : node.committed ≤ node.reserved) (short : node.reserved < 2 ^ 56)
    (isGrowth : IsLeast {multiple | node.sizes.specialized ∣ multiple ∧ max least preferred ≤ multiple}
      growth) :
    ((node.expand least preferred).outcome = .ok none ↔ node.reserved - node.committed < least) ∧
    (∀ fault, (node.expand least preferred).outcome = .error fault ↔
      fault = .overflow ∧ least ≤ node.reserved - node.committed ∧ wordLimit ≤ growth) ∧
    (least ≤ node.reserved - node.committed → wordLimit ≤ growth →
      wordLimit < preferred + node.sizes.specialized) ∧
    (least ≤ node.reserved - node.committed → growth < wordLimit → ∃ after,
      (node.expand least preferred).outcome = .ok (some after) ∧
      Commits (min growth (node.reserved - node.committed)) node after ∧
      least ≤ min growth (node.reserved - node.committed) ∧ after.committed ≤ node.reserved ∧
      after.committed % node.sizes.specialized = 0) := by
  have isNext : growth = Count.nextMultiple (max preferred least) node.sizes.specialized := by
    rw [Nat.max_comm] at isGrowth
    exact isGrowth.unique (Count.isLeast_nextMultiple _ node.sizes.specialized_pos)
  have growthWhole : growth % node.sizes.specialized = 0 := Nat.mod_eq_zero_of_dvd isGrowth.1.1
  have growthLe : max least preferred ≤ growth := isGrowth.1.2
  rw [expand_outcome]
  simp only [← isNext]
  refine ⟨?_, ?_, ?_, ?_⟩
  · split
    · next few => exact iff_of_true rfl few
    · next enough => split <;> exact iff_of_false nofun enough
  · intro fault
    split
    · next few => exact iff_of_false nofun fun ⟨_, enough, _⟩ => absurd few (Nat.not_lt.mpr enough)
    · next enough =>
      split
      · next counted =>
        exact iff_of_false nofun fun ⟨_, _, beyond⟩ => absurd counted (Nat.not_lt.mpr beyond)
      · next beyond =>
        have causes := And.intro (Nat.le_of_not_lt enough) (Nat.le_of_not_lt beyond)
        exact ⟨fun stops => ⟨(Except.error.inj stops).symm, causes⟩, fun ⟨same, _⟩ => by rw [same]⟩
  · intro enough beyond
    exact preferred_of_beyond whole short enough (isNext ▸ beyond)
  · intro enough counted
    rw [if_neg (by omega), if_pos counted]
    have commits := commits_withZeros node (min growth (node.reserved - node.committed))
    refine ⟨_, rfl, commits, by omega, by have := commits.committed; omega, ?_⟩
    rw [commits.committed]
    rcases Nat.le_total growth (node.reserved - node.committed) with fits | beyond
    · rw [Nat.min_eq_left fits, Nat.add_mod, committedWhole, growthWhole]
      exact Nat.zero_mod _
    · rw [Nat.min_eq_right beyond, Nat.add_sub_cancel' inside]
      exact whole

/-- A node of four chunks of the smallest size, of which nothing is committed. -/
def bare : Node where
  id := ⟨.nonClass, 0⟩
  sizes := ⟨40, 160, 640, by decide, by decide, by decide, rfl, rfl⟩
  reserved := 160
  audited := true
  words := #[]
  top := 0
  chunksInUse := 0
  map := ⟨160, 40, .clear 4, .clear 4, by decide⟩

/-- A preference for more than the node reserves commits all of it. -/
theorem bare_honours : bare.reserved % bare.sizes.specialized = 0 ∧
    bare.committed % bare.sizes.specialized = 0 ∧ bare.committed ≤ bare.reserved ∧
    bare.reserved < 2 ^ 56 ∧
    IsLeast {multiple | bare.sizes.specialized ∣ multiple ∧ max 30 3999 ≤ multiple} 4000 ∧
    ∃ after, (bare.expand 30 3999).outcome = .ok (some after) ∧ Commits 160 bare after := by
  have isGrowth : IsLeast
      {multiple | bare.sizes.specialized ∣ multiple ∧ max 30 3999 ≤ multiple} 4000 :=
    Count.isLeast_nextMultiple 3999 bare.sizes.specialized_pos
  obtain ⟨-, -, -, honours⟩ :=
    expand_honours (show bare.reserved % bare.sizes.specialized = 0 by decide)
      (show bare.committed % bare.sizes.specialized = 0 by decide)
      (show bare.committed ≤ bare.reserved by decide) (show bare.reserved < 2 ^ 56 by decide) isGrowth
  obtain ⟨after, done, commits, -⟩ := honours (by decide) (by decide)
  exact ⟨by decide, by decide, by decide, by decide, isGrowth, after, done, commits⟩

/-- A preference for as many words as can be counted stops the operation, though the least number of
words is left. -/
theorem bare_stops :
    (Node.reserve bare.id bare.reserved bare.sizes bare.audited).outcome = .ok bare ∧
    bare.reserved % bare.sizes.specialized = 0 ∧ bare.committed % bare.sizes.specialized = 0 ∧
    bare.reserved < 2 ^ 56 ∧ 40 ≤ bare.reserved - bare.committed ∧ 2 ^ 64 - 1 < wordLimit ∧
    (bare.expand 40 (2 ^ 64 - 1)).outcome = .error .overflow :=
  ⟨rfl, by decide, by decide, by decide, by decide, by decide, rfl⟩

end CollectorMemory.Node
