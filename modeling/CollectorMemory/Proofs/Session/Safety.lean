import CollectorMemory.Proofs.Session.Hoarding

/-!
# Correct use never fails a check

Users use an allocator correctly if they ask for valid chunk sizes and read and write in the allocated
parts of the chunks that they hold. No check, bound or sum inside of any operation then fails, whether
or not the allocator checks itself after its operations. The one thing that is used up is numbers:
uses of a chunk and nodes of a space are counted in half a word. The making of the allocator takes the
first node number of each space, so after one allocation less than there are numbers the next one may
need a node that there is no number left for.
-/

namespace CollectorMemory

variable {uses : Nat} {session start : Session} {operations : List Operation} {options : Options}

/-- Sums of the dimensions of an allocator are counts where its options are below half of the size
limit of a chunk. -/
theorem Allocator.Bounded.of_within {allocator : Allocator}
    (granule : allocator.options.commitGranuleWords < 2 ^ 55)
    (within : ∀ space, (allocator.arena space).list.Within (2 ^ 55)) : allocator.Bounded where
  lists space := by
    obtain ⟨medium, listGranule, nodeWords, limit⟩ := within space
    exact ⟨by omega, by omega, by omega, by omega⟩
  granule := by omega

namespace Session

/-- Users use the allocator correctly in a run: each operation is allowed where it is performed. -/
def Allows : Session → List Operation → Prop
  | _, [] => True
  | session, operation :: rest => operation.Allowed session ∧
    match session.perform operation with
    | .ok next => next.Allows rest
    | .error _ => True

/-- Correct use can be decided. -/
instance decidableAllows : ∀ (session : Session) (operations : List Operation),
    Decidable (session.Allows operations)
  | _, [] => .isTrue trivial
  | session, operation :: rest =>
    have : Decidable (match session.perform operation with
        | .ok next => next.Allows rest
        | .error _ => True) :=
      match session.perform operation with
      | .ok next => decidableAllows next rest
      | .error _ => .isTrue trivial
    instDecidableAnd

/-- A run comes to an operation that needs a new node in a space that has no number left for one. -/
def RunsOut (session : Session) (operations : List Operation) : Prop :=
  ∃ before operation after reached, operations = before ++ operation :: after ∧
    session.run before = .ok reached ∧ operation.OutOfNumbers reached

/-- A run that goes on after its first operation runs out of numbers if it does so later. -/
theorem RunsOut.cons {first : Operation} {next : Session} (runsOut : next.RunsOut operations)
    (performed : session.perform first = .ok next) : session.RunsOut (first :: operations) := by
  obtain ⟨before, operation, after, reached, rfl, done, out⟩ := runsOut
  refine ⟨first :: before, operation, after, reached, rfl, ?_, out⟩
  unfold run at done ⊢
  rw [List.foldlM_cons, performed]
  exact done

/-- A run of allowed operations gets to its end, or it runs out of numbers. -/
theorem Sound.exists_run_or_runsOut (sound : session.Sound uses)
    (bounded : session.allocator.Bounded)
    (limited : ∀ space, (session.allocator.arena space).list.limit < Header.sizeLimit)
    (few : uses + allocations operations < 2 ^ 32) (allowed : session.Allows operations)
    (small : ∀ operation ∈ operations, operation.RequestsBelow (2 ^ 56)) :
    (∃ reached, session.run operations = .ok reached) ∨ session.RunsOut operations := by
  -- What one operation needs is left by the operations before it.
  induction operations generalizing session uses with
  | nil => exact Or.inl ⟨session, rfl⟩
  | cons first rest ih =>
    by_cases out : first.OutOfNumbers session
    · exact Or.inr ⟨[], first, rest, session, rfl, rfl, out⟩
    have total : allocations (first :: rest) = first.allocations + allocations rest := by
      unfold allocations
      rw [List.map_cons, List.sum_cons]
    rw [total] at few
    obtain ⟨firstAllowed, restAllowed⟩ := allowed
    have step : Ensures False (session.perform first) (session.Follows (uses + first.allocations)) :=
      sound.perform_ensures (fun _ => bounded) (fun _ => by omega) (fun _ => out)
        (fun _ => firstAllowed) (fun _ => small first List.mem_cons_self) (Or.inr limited)
    obtain ⟨next, performed, nextSound, spares⟩ := step.exists_ok
    rw [performed] at restAllowed
    have nextLimited : ∀ space, (next.allocator.arena space).list.limit < Header.sizeLimit := by
      intro space
      rw [(spares.lists space).limit]
      exact limited space
    have goesOn := ih nextSound (bounded.of_spares spares) nextLimited (by omega) restAllowed
      fun operation member => small operation (List.mem_cons_of_mem first member)
    refine goesOn.imp ?_ fun runsOut => runsOut.cons performed
    unfold run
    rw [List.foldlM_cons, performed]
    exact id

/-- A run of fewer allocations than there are numbers does not run out of them before the last number
is the next one, with every allocation so far. -/
theorem Sound.allocations_of_runsOut (sound : session.Sound uses)
    (short : ∀ operation ∈ operations, operation.RequestsBelow Header.sizeLimit)
    (few : uses + allocations operations < 2 ^ 32) (runsOut : session.RunsOut operations) :
    uses + allocations operations + 1 = 2 ^ 32 := by
  obtain ⟨before, operation, after, reached, rfl, done, out⟩ := runsOut
  have reachedSound : reached.Sound (uses + allocations before) :=
    (sound.run_follows done (Or.inl fun earlier member =>
      short earlier (List.mem_append_left _ member))).1
  cases operation with
  | allocate space size =>
    have numbers := reachedSound.allocator.numbers space
    have noneLeft := out.1
    have total : allocations (before ++ .allocate space size :: after) =
        allocations before + (1 + allocations after) := by
      unfold allocations
      rw [List.map_append, List.sum_append, List.map_cons, List.sum_cons]
      rfl
    omega
  | _ => exact out.elim

/-- No check fails in correct use of an allocator that could be made: with numbers of words below
`2 ^ 55`, every run of allowed operations that makes fewer than `2 ^ 32` allocations gets to its end.
The one exception is a run of exactly `2 ^ 32 - 1` allocations that comes to one which only a new node
could serve, in a space where the allocations before have used up all numbers of nodes. -/
theorem exists_reached_or_runsOut (made : ofOptions options = .ok start)
    (words : options.WordsBelow (2 ^ 55)) (few : allocations operations < 2 ^ 32)
    (allowed : start.Allows operations)
    (requests : ∀ operation ∈ operations, operation.RequestsBelow (2 ^ 55)) :
    (∃ reached, start.run operations = .ok reached) ∨
      allocations operations + 1 = 2 ^ 32 ∧ start.RunsOut operations := by
  have chunkWords : options.ChunkWordsBelow Header.sizeLimit := words.chunkWords (by decide)
  obtain ⟨sound, isOptions, within⟩ := sound_ofOptions chunkWords made
  have granule : start.allocator.options.commitGranuleWords < 2 ^ 55 := by
    rw [isOptions]
    exact words .commitGranuleWords rfl
  have bounded : start.allocator.Bounded := Allocator.Bounded.of_within granule (within _ words)
  have limited : ∀ space, (start.allocator.arena space).list.limit < Header.sizeLimit :=
    fun space => (within _ words space).limit
  have small : ∀ operation ∈ operations, operation.RequestsBelow (2 ^ 56) :=
    fun operation member => (requests operation member).mono (by decide)
  rw [← Nat.zero_add (allocations operations)] at few ⊢
  refine (sound.exists_run_or_runsOut bounded limited few allowed small).imp_right fun runsOut => ?_
  exact ⟨sound.allocations_of_runsOut
    (fun operation member => (requests operation member).mono (by decide)) few runsOut, runsOut⟩

/-- The short run uses the allocator correctly, and it makes few allocations, so it gets to its end. -/
theorem sample_reached : ∃ start : Session, ofOptions Options.smallest = .ok start ∧
    start.Allows sample ∧ ∃ reached, start.run sample = .ok reached := by
  have evaluated : (ofOptions Options.smallest).toOption.map (fun start =>
      decide (start.Allows sample)) = some true := by decide +kernel
  cases made : ofOptions Options.smallest with
  | error fault =>
    rw [made] at evaluated
    cases evaluated
  | ok start =>
    rw [made] at evaluated
    have allowed : start.Allows sample := of_decide_eq_true (Option.some.inj evaluated)
    refine ⟨start, rfl, allowed, ?_⟩
    rcases exists_reached_or_runsOut made Options.smallest_wordsBelow (by decide) allowed
      sample_requestsBelow with reaches | ⟨many, _⟩
    · exact reaches
    · exact absurd many (by decide)

/-- Users who only ask for chunks of a narrow space use the allocator correctly. -/
theorem Hoarded.allows {space : Space} {kind : Kind} {size count : Nat}
    (hoarded : session.Hoarded space kind size count) (more : Nat) :
    session.Allows (List.replicate more (.allocate space size)) := by
  induction more generalizing session count with
  | zero => trivial
  | succ more ih =>
    rw [List.replicate_succ]
    refine ⟨hoarded.narrow.suits.isChunkSize, ?_⟩
    cases performed : session.perform (.allocate space size) with
    | error fault => trivial
    | ok next => exact ih (hoarded.perform.of_ok performed)

end Session

/-- Options with nodes of one medium chunk and room for a node of fifteen words for every number. -/
def Options.narrow : Options :=
  { Options.smallest with
    nodeWords := 12
    maxWords := 15 * 2 ^ 32
    commitGranuleWords := 3 }

/-- The narrow options have small numbers of words. -/
theorem Options.narrow_wordsBelow : Options.narrow.WordsBelow (2 ^ 55) := by
  intro field _
  cases field <;> decide

namespace Session

/-- A run of one allocation less than there are numbers, all of them for chunks that are larger than the
first node. -/
def hoard : List Operation := List.replicate (2 ^ 32 - 1) (.allocate .nonClass 15)

/-- Every operation of the run asks for such a chunk. -/
theorem eq_of_mem_hoard {operation : Operation} (member : operation ∈ hoard) :
    operation = .allocate .nonClass 15 :=
  List.eq_of_mem_replicate member

/-- A new allocator with narrow nodes has given out one number for fewer than fifteen words. -/
theorem hoarded_narrow : ∃ start : Session, ofOptions Options.narrow = .ok start ∧
    start.Hoarded .nonClass .humongous 15 0 := by
  have evaluated : (ofOptions Options.narrow).toOption.map (fun start =>
      let list := (start.allocator.arena .nonClass).list
      (list.sizes, list.isClass, start.allocator.nodeGrowth .nonClass .humongous 15, list.limit,
        list.total, list.nextIndex)) =
      some (⟨3, 6, 12, by decide, by decide, by decide, rfl, rfl⟩, false, 15, 15 * 2 ^ 32, 12, 1) := by
    decide +kernel
  obtain ⟨start, isSome, view⟩ := Option.map_eq_some_iff.mp evaluated
  have made := eq_ok_of_toOption isSome
  simp only [Prod.mk.injEq] at view
  obtain ⟨sizes, notClass, growth, limit, total, nextIndex⟩ := view
  obtain ⟨sound, _, _⟩ := sound_ofOptions (Options.narrow_wordsBelow.chunkWords (by decide)) made
  refine ⟨start, made, sound, ⟨?_, by decide, notClass, Nat.le_of_eq growth, Nat.le_of_eq limit.symm⟩,
    ?_, ?_, ?_⟩
  · change (start.allocator.arena .nonClass).list.sizes.Suits _ _
    rw [sizes]
    exact ⟨by decide, by decide⟩
  · rw [Nat.zero_mul]
    exact Nat.zero_le _
  · rw [total, nextIndex]
    decide
  · rw [nextIndex]
    decide

/-- Correct use of an allocator that checks itself can end in a fault: where each of `2 ^ 32 - 1`
allocations needs a node of its own, there is a number too few, since the first node has one as well. -/
theorem hoard_stops : ∃ start : Session, ofOptions Options.narrow = .ok start ∧
    Options.narrow.audited = true ∧ Options.narrow.WordsBelow (2 ^ 55) ∧ hoard.length < 2 ^ 32 ∧
    start.Allows hoard ∧ (∀ operation ∈ hoard, operation.RequestsBelow (2 ^ 55)) ∧
    ∃ fault, start.run hoard = .error fault := by
  obtain ⟨start, made, hoarded⟩ := hoarded_narrow
  refine ⟨start, made, rfl, Options.narrow_wordsBelow, ?_, hoarded.allows _, ?_,
    hoarded.run_stops (by decide)⟩
  · unfold hoard
    rw [List.length_replicate]
    decide
  · intro operation member
    rw [eq_of_mem_hoard member]
    exact show 15 < 2 ^ 55 by decide

end Session

end CollectorMemory
