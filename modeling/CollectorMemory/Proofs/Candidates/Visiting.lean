import CollectorMemory.Proofs.Candidates.Claiming
import CollectorMemory.Proofs.Candidates.Turns
import Mathlib.Data.List.Nodup

/-!
# Visiting regions in parallel

Several visitors go through the regions of a heap at the same time, each in the order of its worker.
The step that claims a region is the only one that touches what is shared. If the claim succeeds, the
visitor passes the region to its process in a step of its own, and the process answers in another one
whether the visit ends there. Steps of visitors come in any order and the answers are arbitrary, so a
schedule lists who takes the next step and what its process would answer.

No region is claimed twice, and once any visitor has gone through all regions, every region was
claimed by exactly one, which passed it unless it has yet to take that step
(`Tour.claimed_exactly_once`). Where visitors pass what they claimed before others take their turn,
every region was therefore passed (`Tour.passed_exactly_once`). That a visit without others is what
one visitor does that takes all its steps in a row is `Tour.exists_alone_visit`.
-/

namespace CollectorMemory

/-- What a visitor does next. -/
inductive Visitor.Stage where
  /-- Claim the next region, if there is one. -/
  | claiming
  /-- Pass a region that it claimed to the process. -/
  | calling (region : Nat)
  /-- Get the answer of the process that the last region was passed to. -/
  | processing
  /-- Nothing, since the process wants no more. -/
  | stopped

/-- A visit of the regions in the order of a worker. -/
structure Visitor where
  /-- The region at which the worker begins. -/
  start : Nat
  /-- The regions that it tried to claim, in their order. -/
  tried : List Nat
  /-- The regions that were passed to the process, in their order. -/
  passed : List Nat
  /-- What the visitor does next. -/
  stage : Visitor.Stage

/-- All visitors with the claims that they share. -/
structure Tour where
  /-- The regions that are claimed. -/
  claimer : Claimer
  /-- The visitors. -/
  visitors : List Visitor

namespace Visitor

/-- A visitor that tried no region yet. -/
def ofStart (start : Nat) : Visitor := { start, tried := [], passed := [], stage := .claiming }

/-- The visitor after it tried a region, which it is to pass to the process if the claim is the
first. -/
def afterClaim (visitor : Visitor) (region : Nat) (isFirst : Bool) : Visitor :=
  { visitor with
    tried := visitor.tried ++ [region]
    stage := if isFirst then .calling region else .claiming }

/-- The visitor after it passed a region to the process. -/
def afterCall (visitor : Visitor) (region : Nat) : Visitor :=
  { visitor with passed := visitor.passed ++ [region], stage := .processing }

/-- One step of a visitor, with what its process would answer. -/
def step (visitor : Visitor) (claimer : Claimer) (isDone : Bool) :
    Except Fault (Visitor × Claimer) :=
  match visitor.stage with
  | .claiming =>
    if visitor.tried.length < claimer.regions then do
      let region := claimer.visited visitor.start visitor.tried.length
      let (isFirst, claimer) ← claimer.claim region
      return (visitor.afterClaim region isFirst, claimer)
    else .ok (visitor, claimer)
  | .calling region => .ok (visitor.afterCall region, claimer)
  | .processing =>
    .ok ({ visitor with stage := if isDone then .stopped else .claiming }, claimer)
  | .stopped => .ok (visitor, claimer)

/-- The region that the visitor claimed and has yet to pass to the process. -/
def pending (visitor : Visitor) : Option Nat :=
  match visitor.stage with
  | .calling region => some region
  | .claiming | .processing | .stopped => none

/-- The regions that the visitor claimed, in their order. -/
def claimed (visitor : Visitor) : List Nat := visitor.passed ++ visitor.pending.toList

/-- One turn of a visitor: a step, and the one that passes a region if the first one claimed it. -/
def turn (visitor : Visitor) (claimer : Claimer) (isDone : Bool) :
    Except Fault (Visitor × Claimer) := do
  let (visitor, claimer) ← visitor.step claimer isDone
  match visitor.pending with
  | none => return (visitor, claimer)
  | some _ => visitor.step claimer isDone

/-- A visitor has gone through all regions, and its process did not end the visit. -/
def IsThrough (regions : Nat) (visitor : Visitor) : Prop :=
  visitor.tried.length = regions ∧ visitor.stage = .claiming

end Visitor

namespace Tour

/-- A visitor for each call, which names a worker, before any of them claims a region. -/
def ofCalls (workers regions : Nat) (calls : List Nat) : Except Fault Tour := do
  let claimer ← Claimer.ofCounts workers regions
  let starts ← calls.mapM claimer.offset
  return { claimer, visitors := starts.map Visitor.ofStart }

/-- What one visitor does. -/
def act (tour : Tour) (index : Nat)
    (does : Visitor → Claimer → Except Fault (Visitor × Claimer)) : Except Fault Tour :=
  match tour.visitors[index]? with
  | none => .ok tour
  | some visitor => do
    let (visitor, claimer) ← does visitor tour.claimer
    return { claimer, visitors := tour.visitors.set index visitor }

/-- One step of one visitor. -/
def step (tour : Tour) (turn : Nat × Bool) : Except Fault Tour :=
  tour.act turn.1 fun visitor claimer => visitor.step claimer turn.2

/-- The steps of a schedule. -/
def steps (tour : Tour) (schedule : List (Nat × Bool)) : Except Fault Tour :=
  schedule.foldlM step tour

/-- One turn of one visitor. -/
def turn (tour : Tour) (turn : Nat × Bool) : Except Fault Tour :=
  tour.act turn.1 fun visitor claimer => visitor.turn claimer turn.2

/-- The turns of a schedule. -/
def run (tour : Tour) (schedule : List (Nat × Bool)) : Except Fault Tour :=
  schedule.foldlM turn tour

/-- The regions that were claimed by any visitor. -/
def claimed (tour : Tour) : List Nat := tour.visitors.flatMap Visitor.claimed

/-- The regions that were passed to any process. -/
def passed (tour : Tour) : List Nat := tour.visitors.flatMap Visitor.passed

end Tour

variable {excuse : Prop} {claimer claimer' : Claimer} {visitor after : Visitor} {tour : Tour}
  {workers regions : Nat} {isDone : Bool}

namespace Claimer

/-- All regions in the order of a worker. -/
def order (workers regions worker : Nat) : List Nat :=
  (List.range regions).map fun count => (regions * worker / workers + count) % regions

/-- Going round comes to no region twice. -/
theorem nodup_visited {start regions : Nat} :
    ((List.range regions).map fun count => (start + count) % regions).Nodup := by
  apply List.Nodup.map_on _ List.nodup_range
  intro left leftIn right rightIn same
  have congruent : left ≡ right [MOD regions] := Nat.ModEq.add_left_cancel' start same
  exact congruent.eq_of_lt_of_lt (List.mem_range.mp leftIn) (List.mem_range.mp rightIn)

end Claimer

namespace Visitor

/-- What holds of every visitor. -/
structure Sound (claimer : Claimer) (visitor : Visitor) : Prop where
  /-- The regions were tried one after the other, going round. -/
  tried : visitor.tried <+: (List.range claimer.regions).map (claimer.visited visitor.start)
  /-- Regions that were tried are claimed. -/
  claimed : ∀ region ∈ visitor.tried, claimer.Holds region
  /-- Only regions that were tried were claimed by the visitor. -/
  own : visitor.claimed.Sublist visitor.tried

/-- What a step of a visitor leads to. -/
structure Steps (claimer : Claimer) (visitor : Visitor) (after : Visitor) (claimer' : Claimer) :
    Prop where
  /-- The visitor is sound. -/
  sound : after.Sound claimer'
  /-- The visitor began where it did. -/
  start : after.start = visitor.start
  /-- The number of regions stays. -/
  regions : claimer'.regions = claimer.regions
  /-- The regions that are claimed in addition are those that the visitor claimed in addition. -/
  own : ∃ fresh : List Nat, after.claimed = visitor.claimed ++ fresh ∧ fresh.Nodup ∧
    (∀ region ∈ fresh, ¬claimer.Holds region) ∧
    ∀ region, claimer'.Holds region ↔ claimer.Holds region ∨ region ∈ fresh

/-- A visitor that tried no region is sound. -/
theorem sound_ofStart {start : Nat} : (ofStart start).Sound claimer where
  tried := List.nil_prefix
  claimed _ member := absurd member List.not_mem_nil
  own := List.nil_sublist _

/-- More claims keep a visitor sound. -/
theorem Sound.mono (sound : visitor.Sound claimer) (regions : claimer'.regions = claimer.regions)
    (grows : ∀ region, claimer.Holds region → claimer'.Holds region) :
    visitor.Sound claimer' where
  tried := by
    rw [regions, Claimer.visited_eq regions]
    exact sound.tried
  claimed region member := grows region (sound.claimed region member)
  own := sound.own

/-- A step that tries and claims nothing. -/
theorem Sound.idle (sound : visitor.Sound claimer) (start : after.start = visitor.start)
    (tried : after.tried = visitor.tried) (own : after.claimed = visitor.claimed) :
    visitor.Steps claimer after claimer where
  sound := by
    refine ⟨?_, ?_, ?_⟩
    · rw [start, tried]
      exact sound.tried
    · rw [tried]
      exact sound.claimed
    · rw [own, tried]
      exact sound.own
  start := start
  regions := rfl
  own := ⟨[], own.trans (List.append_nil _).symm, List.nodup_nil,
    fun _ member => absurd member List.not_mem_nil,
    fun _ => ⟨Or.inl, fun either => either.resolve_right List.not_mem_nil⟩⟩

/-- The next region that a visitor tries is the next one going round. -/
theorem Sound.tried_next (sound : visitor.Sound claimer)
    (more : visitor.tried.length < claimer.regions) :
    visitor.tried ++ [claimer.visited visitor.start visitor.tried.length] <+:
      (List.range claimer.regions).map (claimer.visited visitor.start) := by
  have inside : visitor.tried.length <
      ((List.range claimer.regions).map (claimer.visited visitor.start)).length := by
    rw [List.length_map, List.length_range]
    exact more
  have next : ((List.range claimer.regions).map (claimer.visited visitor.start))[
      visitor.tried.length] = claimer.visited visitor.start visitor.tried.length := by
    rw [List.getElem_map, List.getElem_range]
  have extended : visitor.tried ++ [claimer.visited visitor.start visitor.tried.length] =
      ((List.range claimer.regions).map (claimer.visited visitor.start)).take
        (visitor.tried.length + 1) := by
    rw [← next, ← List.take_append_getElem inside, ← List.prefix_iff_eq_take.mp sound.tried]
  rw [extended]
  exact List.take_prefix _ _

/-- What a visitor claimed after it tried a region. -/
theorem claimed_afterClaim {region : Nat} {isFirst : Bool} (claiming : visitor.stage = .claiming) :
    (visitor.afterClaim region isFirst).claimed =
      visitor.claimed ++ if isFirst then [region] else [] := by
  obtain ⟨start, tried, passed, stage⟩ := visitor
  cases claiming
  cases isFirst with
  | true =>
    change passed ++ [region] = passed ++ [] ++ [region]
    rw [List.append_nil]
  | false => exact (List.append_nil _).symm

/-- A visitor is sound after it tried the next region. -/
theorem Sound.afterClaim (sound : visitor.Sound claimer) (claiming : visitor.stage = .claiming)
    (more : visitor.tried.length < claimer.regions) {isFirst : Bool}
    (claims : claimer.Claims (claimer.visited visitor.start visitor.tried.length) claimer') :
    (visitor.afterClaim (claimer.visited visitor.start visitor.tried.length) isFirst).Sound
      claimer' where
  tried := by
    rw [claims.regions, Claimer.visited_eq claims.regions]
    exact sound.tried_next more
  claimed other member := by
    rcases List.mem_append.mp member with before | isLast
    · exact claims.grows (sound.claimed other before)
    · rw [List.mem_singleton.mp isLast]
      exact claims.held
  own := by
    rw [claimed_afterClaim claiming]
    cases isFirst with
    | true => exact sound.own.append (List.Sublist.refl _)
    | false => exact sound.own.append (List.nil_sublist _)

/-- A visitor tries the next region, and claims it if no one claimed it before. -/
theorem Sound.claim (sound : visitor.Sound claimer) (claiming : visitor.stage = .claiming)
    (more : visitor.tried.length < claimer.regions) {isFirst : Bool}
    (first : isFirst = true ↔
      ¬claimer.Holds (claimer.visited visitor.start visitor.tried.length))
    (claims : claimer.Claims (claimer.visited visitor.start visitor.tried.length) claimer') :
    visitor.Steps claimer
      (visitor.afterClaim (claimer.visited visitor.start visitor.tried.length) isFirst)
      claimer' where
  sound := sound.afterClaim claiming more claims
  start := rfl
  regions := claims.regions
  own := by
    refine ⟨_, claimed_afterClaim claiming, ?_⟩
    cases isFirst with
    | true =>
      refine ⟨List.nodup_singleton _, List.forall_mem_singleton.mpr (first.mp rfl), ?_⟩
      intro other
      rw [if_pos rfl, List.mem_singleton]
      exact claims.holds other
    | false =>
      have held := Classical.not_not.mp fun notHeld => absurd (first.mpr notHeld) Bool.false_ne_true
      refine ⟨List.nodup_nil, fun _ member => absurd member List.not_mem_nil, ?_⟩
      intro other
      rw [claims.holds other]
      constructor
      · rintro (before | rfl)
        · exact Or.inl before
        · exact Or.inl held
      · exact fun either => Or.inl (either.resolve_right List.not_mem_nil)

/-- Passing a region does not change what was claimed. -/
theorem claimed_afterCall {region : Nat} (calling : visitor.stage = .calling region) :
    (visitor.afterCall region).claimed = visitor.claimed := by
  obtain ⟨start, tried, passed, stage⟩ := visitor
  cases calling
  exact List.append_nil _

/-- What a visitor does whose next claim is known. -/
theorem step_of_claim {isFirst : Bool} (claiming : visitor.stage = .claiming)
    (more : visitor.tried.length < claimer.regions)
    (claimed : claimer.claim (claimer.visited visitor.start visitor.tried.length) =
      .ok (isFirst, claimer')) :
    visitor.step claimer isDone =
      .ok (visitor.afterClaim (claimer.visited visitor.start visitor.tried.length) isFirst,
        claimer') := by
  unfold step
  rw [claiming]
  dsimp only
  rw [if_pos more, claimed]
  rfl

/-- Every step of a visitor is taken. -/
theorem step_ensures (sound : visitor.Sound claimer) :
    Ensures excuse (visitor.step claimer isDone) fun (after, claimer') =>
      visitor.Steps claimer after claimer' := by
  unfold step
  cases isStage : visitor.stage with
  | claiming =>
    dsimp only
    split
    · next more =>
      apply Ensures.bind (Claimer.claim_ensures
        (Claimer.visited_lt visitor.tried.length (Nat.zero_lt_of_lt more)))
      rintro ⟨isFirst, claimer'⟩ ⟨first, claims⟩
      exact sound.claim isStage more first claims
    · exact sound.idle rfl rfl rfl
  | calling region => exact sound.idle rfl rfl (claimed_afterCall isStage)
  | processing =>
    refine sound.idle rfl rfl ?_
    unfold claimed pending
    rw [isStage]
    cases isDone <;> rfl
  | stopped => exact sound.idle rfl rfl rfl

/-- Every turn of a visitor is taken. It is a step or two, and afterwards no region is yet to be
passed. -/
theorem turn_ensures (sound : visitor.Sound claimer) :
    Ensures excuse (visitor.turn claimer isDone) fun (after, claimer') => after.pending = none ∧
      (visitor.step claimer isDone = .ok (after, claimer') ∨ ∃ between middle,
        visitor.step claimer isDone = .ok (between, middle) ∧
        between.step middle isDone = .ok (after, claimer')) := by
  unfold turn
  apply Ensures.bind ((step_ensures sound).and (ensures_returned _))
  rintro ⟨between, middle⟩ ⟨_, done⟩
  obtain ⟨start, tried, passed, stage⟩ := between
  cases stage with
  | claiming | processing | stopped => exact ⟨rfl, Or.inl done⟩
  | calling region => exact ⟨rfl, Or.inr ⟨_, _, done, rfl⟩⟩

end Visitor

namespace Tour

/-- What holds of all visitors with the claims that they share. -/
structure Sound (tour : Tour) : Prop where
  /-- The visitors are sound. -/
  visitors : ∀ visitor ∈ tour.visitors, visitor.Sound tour.claimer
  /-- No region was claimed by two visitors, or twice by one. -/
  nodup : tour.claimed.Nodup
  /-- The regions that are claimed are those that some visitor claimed. -/
  exactly : ∀ region, region ∈ tour.claimed ↔ tour.claimer.Holds region

/-- No visitor has a region that is yet to be passed. -/
def Settled (tour : Tour) : Prop := ∀ visitor ∈ tour.visitors, visitor.pending = none

/-- A tour after some steps: there are as many regions, and visitors began where they did. -/
structure Follows (tour after : Tour) : Prop where
  /-- The number of regions stays. -/
  regions : after.claimer.regions = tour.claimer.regions
  /-- Each visitor began where it did. -/
  starts : after.visitors.map Visitor.start = tour.visitors.map Visitor.start

/-- A tour follows itself. -/
theorem Follows.refl (tour : Tour) : tour.Follows tour := ⟨rfl, rfl⟩

/-- What follows something that follows the first follows the first. -/
theorem Follows.trans {tour middle after : Tour} (first : tour.Follows middle)
    (second : middle.Follows after) : tour.Follows after :=
  ⟨second.regions.trans first.regions, second.starts.trans first.starts⟩

/-- A step of any visitor is taken. -/
theorem Sound.step_ensures {turn : Nat × Bool} (sound : tour.Sound) :
    Ensures excuse (tour.step turn) fun after => after.Sound ∧ tour.Follows after := by
  unfold step act
  cases found : tour.visitors[turn.1]? with
  | none => exact ⟨sound, Follows.refl tour⟩
  | some visitor =>
    have member : visitor ∈ tour.visitors := List.mem_of_getElem? found
    apply Ensures.bind (Visitor.step_ensures (sound.visitors visitor member))
    rintro ⟨after, claimer'⟩ ⟨soundAfter, start, regions, fresh, own, nodup, unclaimed, holds⟩
    obtain ⟨front, back, split, replaced⟩ := exists_split found
    have more : (front ++ after :: back).flatMap Visitor.claimed
        |>.Perm (tour.claimed ++ fresh) := by
      unfold Tour.claimed
      rw [split, List.flatMap_append, List.flatMap_append, List.flatMap_cons, List.flatMap_cons,
        own, List.append_assoc, List.append_assoc, List.append_assoc]
      exact (List.perm_append_comm.append_left _).append_left _
    refine ⟨⟨?_, ?_, ?_⟩, regions, ?_⟩
    · change ∀ other ∈ tour.visitors.set turn.1 after, other.Sound claimer'
      intro other isOther
      rcases List.mem_or_eq_of_mem_set isOther with before | rfl
      · exact (sound.visitors other before).mono regions fun region held =>
          (holds region).mpr (Or.inl held)
      · exact soundAfter
    · change ((tour.visitors.set turn.1 after).flatMap Visitor.claimed).Nodup
      rw [replaced, more.nodup_iff, List.nodup_append]
      refine ⟨sound.nodup, nodup, fun region isClaimed other isFresh same => ?_⟩
      rw [← same] at isFresh
      exact unclaimed region isFresh ((sound.exactly region).mp isClaimed)
    · intro region
      change region ∈ (tour.visitors.set turn.1 after).flatMap Visitor.claimed ↔ claimer'.Holds region
      rw [replaced, more.mem_iff, List.mem_append, sound.exactly region, holds region]
    · change (tour.visitors.set turn.1 after).map Visitor.start = _
      rw [replaced, split, List.map_append, List.map_append, List.map_cons, List.map_cons, start]

/-- Under every schedule all steps are taken. -/
theorem Sound.steps_ensures {schedule : List (Nat × Bool)} (sound : tour.Sound) :
    Ensures excuse (tour.steps schedule) fun after => after.Sound ∧ tour.Follows after := by
  induction schedule generalizing tour with
  | nil => exact ⟨sound, Follows.refl tour⟩
  | cons turn rest ih =>
    unfold steps
    rw [List.foldlM_cons]
    apply Ensures.bind sound.step_ensures
    rintro middle ⟨soundMiddle, first⟩
    apply (ih soundMiddle).mono
    rintro after ⟨soundAfter, later⟩
    exact ⟨soundAfter, first.trans later⟩

/-- The visitors before the first step begin at the shares of their workers. -/
theorem ofCalls_ensures {calls : List Nat} (positive : 0 < workers)
    (short : ¬excuse → regions * workers < wordLimit)
    (known : ∀ worker ∈ calls, worker < workers) :
    Ensures excuse (ofCalls workers regions calls) fun tour => tour.Sound ∧ tour.Settled ∧
      tour.claimer.regions = regions ∧
      tour.visitors.map Visitor.start = calls.map fun worker => regions * worker / workers := by
  unfold ofCalls
  apply Ensures.bind (Claimer.ofCounts_ensures positive)
  rintro claimer ⟨rfl, rfl, unclaimed⟩
  have each : ∀ worker ∈ calls, Ensures excuse (claimer.offset worker) fun start =>
      start = claimer.regions * worker / claimer.workers := fun worker member =>
    Claimer.offset_ensures (known worker member) fun hard => Nat.lt_of_le_of_lt
      (Nat.mul_le_mul_left _ (Nat.le_of_lt (known worker member))) (short hard)
  apply Ensures.bind (ensures_mapM each)
  intro starts areStarts
  have fresh : ∀ visitor ∈ starts.map Visitor.ofStart, ∃ start, Visitor.ofStart start = visitor :=
    fun visitor member => (List.mem_map.mp member).imp fun _ => And.right
  have nothing : (starts.map Visitor.ofStart).flatMap Visitor.claimed = [] := by
    apply List.flatMap_eq_nil_iff.mpr
    intro visitor member
    obtain ⟨start, rfl⟩ := fresh visitor member
    rfl
  refine ⟨⟨?_, ?_, ?_⟩, ?_, rfl, ?_⟩
  · intro visitor member
    obtain ⟨start, rfl⟩ := fresh visitor member
    exact Visitor.sound_ofStart
  · change ((starts.map Visitor.ofStart).flatMap Visitor.claimed).Nodup
    rw [nothing]
    exact List.nodup_nil
  · intro region
    change region ∈ (starts.map Visitor.ofStart).flatMap Visitor.claimed ↔ _
    rw [nothing]
    exact ⟨fun member => absurd member List.not_mem_nil, fun held => absurd held (unclaimed region)⟩
  · intro visitor member
    obtain ⟨start, rfl⟩ := fresh visitor member
    rfl
  · rw [List.map_map]
    clear each nothing fresh
    induction areStarts with
    | nil => rfl
    | cons isStart _ ih =>
      rw [List.map_cons, List.map_cons, ih fun worker member => known worker
        (List.mem_cons_of_mem _ member), ← isStart]
      rfl

/-- Once a visitor has tried all regions, every region was claimed. -/
theorem Sound.claimed_of_tried (sound : tour.Sound) {region : Nat}
    (member : visitor ∈ tour.visitors) (all : visitor.tried.length = tour.claimer.regions)
    (inside : region < tour.claimer.regions) : region ∈ tour.claimed := by
  have soundVisitor := sound.visitors visitor member
  have everything := soundVisitor.tried.eq_of_length (by
    rw [List.length_map, List.length_range]
    exact all)
  obtain ⟨count, before, isRegion⟩ := Claimer.exists_visited visitor.start inside
  rw [sound.exactly region]
  apply soundVisitor.claimed
  rw [everything, ← isRegion]
  exact List.mem_map_of_mem (List.mem_range.mpr before)

/-- The steps of a schedule begin with the first of them. -/
theorem steps_cons {turn : Nat × Bool} {rest : List (Nat × Bool)} {middle : Tour}
    (done : tour.step turn = .ok middle) : tour.steps (turn :: rest) = middle.steps rest := by
  unfold steps
  rw [List.foldlM_cons, done]
  rfl

/-- The steps of two schedules are taken one after the other. -/
theorem steps_append {first second : List (Nat × Bool)} {middle : Tour}
    (done : tour.steps first = .ok middle) :
    tour.steps (first ++ second) = middle.steps second := by
  unfold steps at done ⊢
  rw [List.foldlM_append, done]
  rfl

/-- A step of a visitor is a step of the tour. -/
theorem step_of_step {index : Nat} (found : tour.visitors[index]? = some visitor)
    (done : visitor.step tour.claimer isDone = .ok (after, claimer')) :
    tour.step (index, isDone) =
      .ok { claimer := claimer', visitors := tour.visitors.set index after } := by
  unfold step act
  rw [found]
  dsimp only
  rw [done]
  rfl

/-- A turn of any visitor is taken. It is what some steps are, and no region is yet to be passed
afterwards if none was before. -/
theorem Sound.turn_ensures {turn : Nat × Bool} (sound : tour.Sound) (settled : tour.Settled) :
    Ensures excuse (tour.turn turn) fun after => after.Settled ∧
      ∃ schedule, tour.steps schedule = .ok after := by
  obtain ⟨index, isDone⟩ := turn
  unfold Tour.turn act
  dsimp only
  cases found : tour.visitors[index]? with
  | none => exact ⟨settled, [], rfl⟩
  | some visitor =>
    have member : visitor ∈ tour.visitors := List.mem_of_getElem? found
    have inside : index < tour.visitors.length := (List.getElem?_eq_some_iff.mp found).1
    apply Ensures.bind (Visitor.turn_ensures (sound.visitors visitor member))
    rintro ⟨after, claimer'⟩ ⟨nothing, isStep⟩
    refine ⟨?_, ?_⟩
    · change ∀ other ∈ tour.visitors.set index after, other.pending = none
      intro other isOther
      rcases List.mem_or_eq_of_mem_set isOther with before | rfl
      · exact settled other before
      · exact nothing
    · rcases isStep with done | ⟨between, middle, first, second⟩
      · exact ⟨[(index, isDone)], steps_cons (step_of_step found done)⟩
      · refine ⟨[(index, isDone), (index, isDone)], ?_⟩
        let tour' : Tour := ⟨middle, tour.visitors.set index between⟩
        have found' : tour'.visitors[index]? = some between := List.getElem?_set_self inside
        have again := step_of_step found' second
        rw [List.set_set] at again
        exact (steps_cons (step_of_step found first)).trans (steps_cons again)

/-- Under every schedule all turns are taken, which is what some steps are. -/
theorem Sound.run_ensures {schedule : List (Nat × Bool)} (sound : tour.Sound)
    (settled : tour.Settled) : Ensures excuse (tour.run schedule) fun after => after.Settled ∧
      ∃ schedule, tour.steps schedule = .ok after := by
  induction schedule generalizing tour with
  | nil => exact ⟨settled, [], rfl⟩
  | cons turn rest ih =>
    unfold run
    rw [List.foldlM_cons]
    apply Ensures.bind (sound.turn_ensures settled)
    rintro middle ⟨settledMiddle, first, isFirst⟩
    have soundMiddle : middle.Sound :=
      ((sound.steps_ensures : Ensures True _ _).of_ok isFirst).1
    apply (ih soundMiddle settledMiddle).mono
    rintro after ⟨settledAfter, second, isSecond⟩
    exact ⟨settledAfter, first ++ second, (steps_append isFirst).trans isSecond⟩

/-- What a visitor does that takes steps in a row. -/
structure Alone (tour : Tour) (index : Nat) (visitor : Visitor) (claimer' : Claimer)
    (after : Visitor) (fresh : List Nat) : Prop where
  /-- For some answers of its process, the steps of the visitor lead there. -/
  steps : ∃ answers : List Bool, tour.steps (answers.map (index, ·)) =
    .ok { claimer := claimer', visitors := tour.visitors.set index after }
  /-- The visit has ended. -/
  ended : after.IsThrough claimer'.regions ∨ after.stage = .stopped
  /-- These regions were passed to the process. -/
  passed : after.passed = visitor.passed ++ fresh

/-- One more step at the beginning. -/
theorem Alone.of_step {index : Nat} {middle : Claimer} {next : Visitor} {fresh more : List Nat}
    (alone : Alone { claimer := middle, visitors := tour.visitors.set index next } index next
      claimer' after fresh)
    (found : tour.visitors[index]? = some visitor)
    (done : visitor.step tour.claimer isDone = .ok (next, middle))
    (passed : next.passed = visitor.passed ++ more) :
    tour.Alone index visitor claimer' after (more ++ fresh) where
  steps := by
    obtain ⟨answers, ran⟩ := alone.steps
    refine ⟨isDone :: answers, ?_⟩
    rw [List.map_cons, steps_cons (step_of_step found done), ran, List.set_set]
  ended := alone.ended
  passed := by rw [alone.passed, passed, List.append_assoc]

/-- A region that is claimed and passed at the beginning, with the answer of the process. -/
theorem Alone.of_passed {index region : Nat} {middle : Claimer} {next : Visitor} {fresh : List Nat}
    (alone : Alone { claimer := middle, visitors := tour.visitors.set index next } index next
      claimer' after fresh)
    (found : tour.visitors[index]? = some visitor)
    (claimed : visitor.step tour.claimer false = .ok (visitor.afterClaim region true, middle))
    (answered : ((visitor.afterClaim region true).afterCall region).step middle isDone =
      .ok (next, middle))
    (passed : next.passed = visitor.passed ++ [region]) :
    tour.Alone index visitor claimer' after (region :: fresh) := by
  let calling := visitor.afterClaim region true
  let called := calling.afterCall region
  let tourCalling : Tour := { claimer := middle, visitors := tour.visitors.set index calling }
  let tourCalled : Tour := { claimer := middle, visitors := tour.visitors.set index called }
  have inside : index < tour.visitors.length := (List.getElem?_eq_some_iff.mp found).1
  have isCalling : tourCalling.visitors[index]? = some calling := List.getElem?_set_self inside
  have isCalled : tourCalled.visitors[index]? = some called := List.getElem?_set_self inside
  have afterAnswer : tourCalled.Alone index called claimer' after fresh := by
    rw [← List.set_set called] at alone
    exact alone.of_step isCalled answered (passed.trans (List.append_nil _).symm)
  have afterCall : tourCalling.Alone index calling claimer' after (region :: fresh) := by
    unfold tourCalled at afterAnswer
    rw [← List.set_set calling] at afterAnswer
    have calls : calling.step middle false = .ok (called, middle) := rfl
    exact afterAnswer.of_step isCalling calls rfl
  exact afterCall.of_step found claimed (List.append_nil _).symm

/-- A visitor that was stopped has ended its visit. -/
theorem Alone.of_stopped {index : Nat} (found : tour.visitors[index]? = some visitor)
    (stopped : visitor.stage = .stopped) : tour.Alone index visitor tour.claimer visitor [] where
  steps := by
    obtain ⟨inside, rfl⟩ := List.getElem?_eq_some_iff.mp found
    refine ⟨[], ?_⟩
    rw [List.set_getElem_self]
    rfl
  ended := Or.inr stopped
  passed := (List.append_nil _).symm

/-- A visitor that takes steps in a row until its visit ends does what a visit does from there on. -/
theorem exists_alone_visitFrom {σ : Type} {process : σ → Nat → σ × Bool} {state state' : σ}
    {index left : Nat} (found : tour.visitors[index]? = some visitor)
    (claiming : visitor.stage = .claiming)
    (remain : visitor.tried.length + left = tour.claimer.regions)
    (done : Claimer.visitFrom process visitor.start tour.claimer state left =
      .ok (claimer', state')) :
    ∃ after fresh, tour.Alone index visitor claimer' after fresh ∧
      state' = fresh.foldl (fun state region => (process state region).1) state := by
  induction left generalizing tour visitor state with
  | zero =>
    obtain ⟨rfl, rfl⟩ := Prod.mk.inj (Except.ok.inj done)
    obtain ⟨inside, rfl⟩ := List.getElem?_eq_some_iff.mp found
    refine ⟨_, [], ⟨⟨[], ?_⟩, Or.inl ⟨remain, claiming⟩, (List.append_nil _).symm⟩, rfl⟩
    rw [List.set_getElem_self]
    rfl
  | succ left ih =>
    have more : visitor.tried.length < tour.claimer.regions := by omega
    have next : tour.claimer.regions - (left + 1) = visitor.tried.length := by omega
    have inHeap : tour.claimer.visited visitor.start visitor.tried.length < tour.claimer.regions :=
      Claimer.visited_lt _ (Nat.zero_lt_of_lt more)
    obtain ⟨⟨isFirst, middle⟩, claimed, _, claims⟩ := (Claimer.claim_ensures inHeap).exists_ok
    have steps : visitor.step tour.claimer false = .ok (visitor.afterClaim _ isFirst, middle) :=
      Visitor.step_of_claim claiming more claimed
    unfold Claimer.visitFrom at done
    rw [next] at done
    dsimp only at done
    generalize tour.claimer.visited visitor.start visitor.tried.length = region at *
    rw [claimed] at done
    have inside : index < tour.visitors.length := (List.getElem?_eq_some_iff.mp found).1
    have remains : (visitor.tried ++ [region]).length + left = middle.regions := by
      rw [claims.regions, List.length_append, List.length_singleton]
      omega
    cases isFirst with
    | false =>
      let visitor' := visitor.afterClaim region false
      obtain ⟨after, fresh, alone, folded⟩ := @ih visitor'
        ⟨middle, tour.visitors.set index visitor'⟩ state (List.getElem?_set_self inside) rfl
        remains done
      exact ⟨after, fresh, alone.of_step found steps (List.append_nil _).symm, folded⟩
    | true =>
      let called := (visitor.afterClaim region true).afterCall region
      change (if (process state region).2 then _ else _) = _ at done
      split at done
      · obtain ⟨rfl, rfl⟩ := Prod.mk.inj (Except.ok.inj done)
        let stopped : Visitor := { called with stage := .stopped }
        have answered : called.step middle true = .ok (stopped, middle) := rfl
        have alone : Alone ⟨middle, tour.visitors.set index stopped⟩ index stopped middle stopped [] :=
          Alone.of_stopped (List.getElem?_set_self inside) rfl
        exact ⟨stopped, [region], alone.of_passed found steps answered rfl, rfl⟩
      · let resumed : Visitor := { called with stage := .claiming }
        have answered : called.step middle false = .ok (resumed, middle) := rfl
        obtain ⟨after, fresh, alone, folded⟩ := @ih resumed
          ⟨middle, tour.visitors.set index resumed⟩ (process state region).1
          (List.getElem?_set_self inside) rfl remains done
        exact ⟨after, region :: fresh, alone.of_passed found steps answered rfl, folded⟩

/-- A visitor of a worker that takes all its steps in a row does what the visit of the worker does. -/
theorem exists_alone_visit {σ : Type} {process : σ → Nat → σ × Bool} {state state' : σ}
    {index worker start : Nat} (found : tour.visitors[index]? = some (Visitor.ofStart start))
    (offset : tour.claimer.offset worker = .ok start)
    (done : tour.claimer.visit process worker state = .ok (claimer', state')) :
    ∃ after fresh, tour.Alone index (Visitor.ofStart start) claimer' after fresh ∧
      state' = fresh.foldl (fun state region => (process state region).1) state := by
  unfold Claimer.visit at done
  rw [offset] at done
  exact exists_alone_visitFrom found rfl (Nat.zero_add _) done

/-- What was passed was claimed, in the same order. -/
theorem passed_sublist (tour : Tour) : tour.passed.Sublist tour.claimed := by
  unfold passed claimed
  induction tour.visitors with
  | nil => exact List.Sublist.refl _
  | cons visitor rest ih =>
    rw [List.flatMap_cons, List.flatMap_cons]
    exact (List.sublist_append_left _ _).append ih

/-- What was claimed was passed, unless it is yet to be. -/
theorem passed_or_pending {region : Nat} (member : region ∈ tour.claimed) :
    region ∈ tour.passed ∨ ∃ visitor ∈ tour.visitors, visitor.pending = some region := by
  obtain ⟨visitor, isVisitor, own⟩ := List.mem_flatMap.mp member
  rcases List.mem_append.mp own with isPassed | isPending
  · exact Or.inl (List.mem_flatMap.mpr ⟨visitor, isVisitor, isPassed⟩)
  · exact Or.inr ⟨visitor, isVisitor, Option.mem_toList.mp isPending⟩

/-- What is known of all visitors for some calls, each of which names a worker. -/
structure Visits (workers regions : Nat) (calls : List Nat) (after : Tour) : Prop where
  /-- No region was passed twice. -/
  once : ∀ region, after.passed.count region ≤ 1
  /-- Each visitor tried regions in the order of its worker and none twice, and passed only these. -/
  inOrder : List.Forall₂ (fun visitor worker =>
    visitor.tried <+: Claimer.order workers regions worker ∧
      visitor.tried.Nodup ∧ visitor.passed.Sublist visitor.tried) after.visitors calls
  /-- Once a visitor is through, every region was claimed by exactly one. -/
  claimed : ∀ visitor ∈ after.visitors, visitor.IsThrough regions →
    ∀ region < regions, after.claimed.count region = 1
  /-- A region that was claimed was passed once, or the visitor that claimed it is yet to do so. -/
  passed : ∀ region, after.claimed.count region = 1 → after.passed.count region = 1 ∨
    ∃ visitor ∈ after.visitors, visitor.pending = some region

/-- Whatever visitors there are and whatever the schedule of their steps, no region is passed twice,
each visitor tries regions in the order of its worker and none twice, and once a visitor is through,
every region was claimed by exactly one of them, and passed once that visitor has taken its step. -/
theorem claimed_exactly_once {calls : List Nat} (positive : 0 < workers)
    (short : regions * workers < wordLimit) (known : ∀ worker ∈ calls, worker < workers) :
    ∃ tour, ofCalls workers regions calls = .ok tour ∧ tour.Sound ∧ tour.Settled ∧
      ∀ schedule, ∃ after, tour.steps schedule = .ok after ∧ after.Visits workers regions calls := by
  obtain ⟨tour, made, sound, settled, rfl, starts⟩ :=
    (ofCalls_ensures positive (fun _ => short) known).exists_ok
  refine ⟨tour, made, sound, settled, fun schedule => ?_⟩
  obtain ⟨after, ran, soundAfter, sameRegions, sameStarts⟩ := sound.steps_ensures.exists_ok
  have once : ∀ region, after.passed.count region ≤ 1 :=
    List.nodup_iff_count_le_one.mp (after.passed_sublist.nodup soundAfter.nodup)
  refine ⟨after, ran, once, ?_, ?_, ?_⟩
  · have begins : List.Forall₂ (fun (visitor : Visitor) worker =>
        visitor.start = tour.claimer.regions * worker / workers) after.visitors calls := by
      rw [← List.forall₂_map_right_iff, ← List.forall₂_map_left_iff, List.forall₂_eq_eq_eq]
      exact sameStarts.trans starts
    apply ((List.forall₂_and_left _ _).mpr ⟨soundAfter.visitors, begins⟩).imp
    rintro visitor worker ⟨soundVisitor, begin⟩
    have tried : visitor.tried <+: Claimer.order workers tour.claimer.regions worker := by
      unfold Claimer.order
      rw [← begin, ← sameRegions]
      exact soundVisitor.tried
    exact ⟨tried, Claimer.nodup_visited.sublist tried.sublist,
      (List.sublist_append_left _ _).trans soundVisitor.own⟩
  · rintro visitor member ⟨all, _⟩ region inside
    rw [← sameRegions] at all inside
    exact List.count_eq_one_of_mem soundAfter.nodup
      (soundAfter.claimed_of_tried member all inside)
  · intro region isClaimed
    have member : region ∈ after.claimed := List.count_pos_iff.mp (by omega)
    rcases passed_or_pending member with isPassed | isPending
    · exact Or.inl (Nat.le_antisymm (once region) (List.count_pos_iff.mpr isPassed))
    · exact Or.inr isPending

/-- Whatever visitors there are and whatever the schedule of their turns, in which they pass what they
claim, no region is passed twice, each visitor tries regions in the order of its worker and none
twice, and once a visitor is through, every region was passed once. -/
theorem passed_exactly_once {calls : List Nat} (positive : 0 < workers)
    (short : regions * workers < wordLimit) (known : ∀ worker ∈ calls, worker < workers) :
    ∃ tour, ofCalls workers regions calls = .ok tour ∧ ∀ schedule, ∃ after,
      tour.run schedule = .ok after ∧
      (∀ region, after.passed.count region ≤ 1) ∧
      List.Forall₂ (fun visitor worker => visitor.tried <+: Claimer.order workers regions worker ∧
        visitor.tried.Nodup ∧ visitor.passed.Sublist visitor.tried) after.visitors calls ∧
      ∀ visitor ∈ after.visitors, visitor.IsThrough regions →
        ∀ region < regions, after.passed.count region = 1 := by
  obtain ⟨tour, made, sound, settled, stepwise⟩ := claimed_exactly_once positive short known
  refine ⟨tour, made, fun schedule => ?_⟩
  obtain ⟨after, ran, settledAfter, schedule', isSteps⟩ :=
    (sound.run_ensures settled).exists_ok
  obtain ⟨after', ranSteps, visits⟩ := stepwise schedule'
  obtain rfl := Except.ok.inj (isSteps.symm.trans ranSteps)
  refine ⟨after, ran, visits.once, visits.inOrder, fun visitor member through region inside => ?_⟩
  have isClaimed := visits.claimed visitor member through region inside
  refine (visits.passed region isClaimed).resolve_right ?_
  rintro ⟨other, isOther, isPending⟩
  rw [settledAfter other isOther] at isPending
  cases isPending

/-- Two visitors share three regions; one of them is stopped, the other one goes through all. -/
theorem passed_exactly_once_of_stopped : ∃ tour after,
    ofCalls 2 3 [0, 1] = .ok tour ∧
    tour.run [(0, false), (1, false), (1, true), (0, false), (0, false), (1, false), (0, false),
      (0, false)] = .ok after ∧
    after.passed = [0, 2, 1] ∧ ∀ region < 3, after.passed.count region = 1 := by
  obtain ⟨tour, made, runs⟩ := @passed_exactly_once 2 3 [0, 1] (by decide) (by decide) (by decide)
  obtain ⟨after, ran, _, _, complete⟩ := runs [(0, false), (1, false), (1, true), (0, false),
    (0, false), (1, false), (0, false), (0, false)]
  cases made
  cases ran
  exact ⟨_, _, rfl, rfl, rfl, complete _ List.mem_cons_self ⟨rfl, rfl⟩⟩

end Tour

end CollectorMemory
