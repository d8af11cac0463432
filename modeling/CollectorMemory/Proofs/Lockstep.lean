import CollectorMemory.Proofs.Ensures

/-!
# Outcomes in lockstep

`Lockstep excuse related left right` says of two outcomes that they are results that are related, or
one and the same fault. It goes through a sequence of steps as `Ensures` does, with one rule for each
way to combine them. A true excuse speaks of related results alone: that is enough of steps which
cannot stop on either side (`Lockstep.ensured`), and it lets checks pass that only one side makes.
`Simulates` goes in one direction only: wherever the second outcome is a result, so is the first.
-/

namespace CollectorMemory

variable {α β γ δ : Type} {excuse : Prop} {related : α → γ → Prop} {left : Except Fault α}
  {right : Except Fault γ}

/-- Both outcomes are results that are related, or both are the same fault, up to what is excused. -/
def Lockstep (excuse : Prop) (related : α → γ → Prop) (left : Except Fault α)
    (right : Except Fault γ) : Prop :=
  match left, right with
  | .ok value, .ok other => related value other
  | .error fault, .error other => excuse ∨ other = fault
  | _, _ => excuse

/-- Two results whose first parts are related and whose other parts are equal. -/
def Alongside (related : α → γ → Prop) (left : α × β) (right : γ × β) : Prop :=
  related left.1 right.1 ∧ right.2 = left.2

/-- Where the second outcome is a result, the first is one that is related to it. -/
def Simulates (related : α → γ → Prop) (left : Except Fault α) (right : Except Fault γ) : Prop :=
  ∀ other, right = .ok other → ∃ value, left = .ok value ∧ related value other

/-- What is ensured of each side by itself holds of both results. -/
theorem lockstep_of_ensures {post : α → Prop} {post' : γ → Prop} (first : Ensures True left post)
    (second : Ensures True right post') :
    Lockstep True (fun value other => post value ∧ post' other) left right := by
  cases left with
  | error fault =>
    cases right with
    | error other => exact Or.inl trivial
    | ok other => trivial
  | ok value =>
    cases right with
    | error other => trivial
    | ok other => exact ⟨first, second⟩

/-- Steps that cannot stop on either side are in lockstep where their results are related. -/
theorem Lockstep.ensured {post : α → Prop} {post' : γ → Prop}
    (lockstep : Lockstep True related left right) (first : Ensures excuse left post)
    (second : Ensures excuse right post') :
    Lockstep excuse (fun value other => related value other ∧ post value ∧ post' other) left
      right := by
  cases left with
  | error fault =>
    cases right with
    | error other => exact Or.inl first
    | ok other => exact first
  | ok value =>
    cases right with
    | error other => exact second
    | ok other => exact ⟨lockstep, first, second⟩

/-- What is ensured of each side by itself is known of results in lockstep. -/
theorem Lockstep.known {post : α → Prop} {post' : γ → Prop}
    (lockstep : Lockstep excuse related left right) (first : Ensures True left post)
    (second : Ensures True right post') :
    Lockstep excuse (fun value other => related value other ∧ post value ∧ post' other) left
      right := by
  cases left with
  | error fault => cases right <;> exact lockstep
  | ok value =>
    cases right with
    | error other => exact lockstep
    | ok other => exact ⟨lockstep, first, second⟩

/-- Where one side has a result that nothing excuses, the other side has a related one. -/
theorem Lockstep.exists_ok {value : α} (lockstep : Lockstep False related left right)
    (done : left = .ok value) : ∃ other, right = .ok other ∧ related value other := by
  subst done
  cases right with
  | error other => exact lockstep.elim
  | ok other => exact ⟨other, rfl, lockstep⟩

/-- Results are related more loosely as well. -/
theorem Lockstep.mono {looser : α → γ → Prop} (lockstep : Lockstep excuse related left right)
    (loosen : ∀ value other, related value other → looser value other) :
    Lockstep excuse looser left right := by
  cases left with
  | error fault => cases right <;> exact lockstep
  | ok value =>
    cases right with
    | error other => exact lockstep
    | ok other => exact loosen value other lockstep

/-- Two sequences of operations, where the later ones start from related results. -/
theorem Lockstep.bind {next : α → Except Fault β} {next' : γ → Except Fault δ}
    {middle : α → γ → Prop} {related : β → δ → Prop} (first : Lockstep excuse middle left right)
    (later : ∀ value other, middle value other → Lockstep excuse related (next value) (next' other)) :
    Lockstep excuse related (left >>= next) (right >>= next') := by
  cases left with
  | error fault =>
    cases right with
    | error other => exact first
    | ok other =>
      change Lockstep excuse related (.error fault) (next' other)
      cases next' other with
      | error _ => exact Or.inl first
      | ok _ => exact first
  | ok value =>
    cases right with
    | ok other => exact later value other first
    | error other =>
      change Lockstep excuse related (next value) (.error other)
      cases next value with
      | error _ => exact Or.inl first
      | ok _ => exact first

/-- Two sequences of runs, where the later ones start from related results. -/
theorem Lockstep.bindRun {first : Run α} {second : Run γ} {next : α → Run β} {next' : γ → Run δ}
    {middle : α → γ → Prop} {related : β → δ → Prop}
    (lockstep : Lockstep excuse middle first.outcome second.outcome)
    (later : ∀ value other, middle value other →
      Lockstep excuse related (next value).outcome (next' other).outcome) :
    Lockstep excuse related (first >>= next).outcome (second >>= next').outcome := by
  rw [Run.outcome_bind, Run.outcome_bind]
  exact lockstep.bind later

/-- Related options are nothing on both sides, or related values. -/
theorem cases_of_rel {found : Option α} {found' : Option γ} (both : Option.Rel related found found') :
    found = none ∧ found' = none ∨
      ∃ value other, found = some value ∧ found' = some other ∧ related value other := by
  cases both with
  | none => exact Or.inl ⟨rfl, rfl⟩
  | some both => exact Or.inr ⟨_, _, rfl, rfl, both⟩

/-- Two sequences that begin with the same operation go on from its result. -/
theorem lockstep_same {outcome : Except Fault α} {next : α → Except Fault β}
    {next' : α → Except Fault δ} {related : β → δ → Prop}
    (later : ∀ value, outcome = .ok value → Lockstep excuse related (next value) (next' value)) :
    Lockstep excuse related (outcome >>= next) (outcome >>= next') := by
  cases outcome with
  | ok value => exact later value rfl
  | error fault => exact Or.inr rfl

/-- Two sequences of runs that begin with the same operation go on from its result. -/
theorem lockstep_sameRun {first : Run α} {next : α → Run β} {next' : α → Run δ}
    {related : β → δ → Prop} (later : ∀ value, first.outcome = .ok value →
      Lockstep excuse related (next value).outcome (next' value).outcome) :
    Lockstep excuse related (first >>= next).outcome (first >>= next').outcome := by
  rw [Run.outcome_bind, Run.outcome_bind]
  exact lockstep_same later

/-- Reporting events changes nothing of what comes after it. -/
theorem lockstep_note {event event' : Event} {next : Run α} {next' : Run γ}
    (later : Lockstep excuse related next.outcome next'.outcome) :
    Lockstep excuse related (Run.note event >>= fun _ => next).outcome
      (Run.note event' >>= fun _ => next').outcome := by
  rw [Run.outcome_bind, Run.outcome_bind]
  exact later

/-- Reporting events on some occasions changes nothing of what comes after it. -/
theorem lockstep_noteIf {occasion occasion' : Bool} {event event' : Event} {next : Run α}
    {next' : Run γ} (later : Lockstep excuse related next.outcome next'.outcome) :
    Lockstep excuse related (Run.noteIf occasion event >>= fun _ => next).outcome
      (Run.noteIf occasion' event' >>= fun _ => next').outcome := by
  rw [Run.outcome_bind, Run.outcome_bind, Run.outcome_noteIf, Run.outcome_noteIf]
  exact later

/-- Checks that are made on one side only change nothing of what comes after them where they pass. -/
theorem lockstep_checks (check : Except Fault β) (check' : Except Fault δ) :
    Lockstep True (fun _ _ => True) check check' :=
  (lockstep_of_ensures (ensures_excused check) (ensures_excused check')).mono fun _ _ _ => trivial

/-- Outcomes in lockstep say nothing where faults are excused and the second one is a fault. -/
theorem lockstep_of_error {fault : Fault} : Lockstep True related left (.error fault) := by
  cases left with
  | error _ => exact Or.inl trivial
  | ok _ => trivial

/-- What comes after a fault on the second side does not matter where faults are excused. -/
theorem lockstep_of_stops (stops : Ensures True right fun _ => False) :
    Lockstep True related left right := by
  cases right with
  | error _ => exact lockstep_of_error
  | ok _ => exact stops.elim

/-- A step that cannot stop on the left simulates the one on the right if their results are related. -/
theorem Lockstep.simulates {post : α → Prop} (lockstep : Lockstep True related left right)
    (first : Ensures False left post) :
    Simulates (fun value other => related value other ∧ post value) left right := by
  intro other done
  obtain ⟨value, isValue, holds⟩ := first.exists_ok
  subst isValue done
  exact ⟨value, rfl, lockstep, holds⟩

/-- Outcomes that are in lockstep without an excuse simulate one another. -/
theorem Lockstep.simulates_of_hard (lockstep : Lockstep False related left right) :
    Simulates related left right := by
  intro other done
  subst done
  cases left with
  | error fault => exact lockstep.elim
  | ok value => exact ⟨value, rfl, lockstep⟩

/-- A result simulates a related one. -/
theorem simulates_ok {value : α} {other : γ} (both : related value other) :
    Simulates related (.ok value) (.ok other) := by
  intro result done
  cases done
  exact ⟨value, rfl, both⟩

/-- Results are related more loosely as well. -/
theorem Simulates.mono {looser : α → γ → Prop} (simulates : Simulates related left right)
    (loosen : ∀ value other, related value other → looser value other) :
    Simulates looser left right := by
  intro other done
  obtain ⟨value, isValue, both⟩ := simulates other done
  exact ⟨value, isValue, loosen value other both⟩

/-- What is ensured of each side by itself is known of simulated results. -/
theorem Simulates.known {post : α → Prop} {post' : γ → Prop}
    (simulates : Simulates related left right) (first : Ensures True left post)
    (second : Ensures True right post') :
    Simulates (fun value other => related value other ∧ post value ∧ post' other) left right := by
  intro other done
  obtain ⟨value, isValue, both⟩ := simulates other done
  exact ⟨value, isValue, both, first.of_ok isValue, second.of_ok done⟩

/-- Two sequences of operations, where the later ones start from related results. -/
theorem Simulates.bind {next : α → Except Fault β} {next' : γ → Except Fault δ}
    {middle : α → γ → Prop} {related : β → δ → Prop} (first : Simulates middle left right)
    (later : ∀ value other, middle value other → Simulates related (next value) (next' other)) :
    Simulates related (left >>= next) (right >>= next') := by
  intro result done
  obtain ⟨other, isOther, isResult⟩ := bind_eq_ok_iff.mp done
  obtain ⟨value, isValue, both⟩ := first other isOther
  obtain ⟨last, isLast, related⟩ := later value other both result isResult
  exact ⟨last, bind_eq_ok_iff.mpr ⟨value, isValue, isLast⟩, related⟩

/-- Two sequences of runs, where the later ones start from related results. -/
theorem Simulates.bindRun {first : Run α} {second : Run γ} {next : α → Run β} {next' : γ → Run δ}
    {middle : α → γ → Prop} {related : β → δ → Prop}
    (simulates : Simulates middle first.outcome second.outcome)
    (later : ∀ value other, middle value other →
      Simulates related (next value).outcome (next' other).outcome) :
    Simulates related (first >>= next).outcome (second >>= next').outcome := by
  rw [Run.outcome_bind, Run.outcome_bind]
  exact simulates.bind later

/-- Two sequences that begin with the same operation go on from its result. -/
theorem simulates_same {outcome : Except Fault α} {next : α → Except Fault β}
    {next' : α → Except Fault δ} {related : β → δ → Prop}
    (later : ∀ value, outcome = .ok value → Simulates related (next value) (next' value)) :
    Simulates related (outcome >>= next) (outcome >>= next') := by
  intro result done
  obtain ⟨value, isValue, isResult⟩ := bind_eq_ok_iff.mp done
  obtain ⟨last, isLast, both⟩ := later value isValue result isResult
  exact ⟨last, bind_eq_ok_iff.mpr ⟨value, isValue, isLast⟩, both⟩

/-- Two sequences of runs that begin with the same operation go on from its result. -/
theorem simulates_sameRun {first : Run α} {next : α → Run β} {next' : α → Run δ}
    {related : β → δ → Prop} (later : ∀ value, first.outcome = .ok value →
      Simulates related (next value).outcome (next' value).outcome) :
    Simulates related (first >>= next).outcome (first >>= next').outcome := by
  rw [Run.outcome_bind, Run.outcome_bind]
  exact simulates_same later

/-- Reporting events changes nothing of what comes after it. -/
theorem simulates_note {event event' : Event} {next : Run α} {next' : Run γ}
    (later : Simulates related next.outcome next'.outcome) :
    Simulates related (Run.note event >>= fun _ => next).outcome
      (Run.note event' >>= fun _ => next').outcome := by
  rw [Run.outcome_bind, Run.outcome_bind]
  exact later

/-- Reporting events on some occasions changes nothing of what comes after it. -/
theorem simulates_noteIf {occasion occasion' : Bool} {event event' : Event} {next : Run α}
    {next' : Run γ} (later : Simulates related next.outcome next'.outcome) :
    Simulates related (Run.noteIf occasion event >>= fun _ => next).outcome
      (Run.noteIf occasion' event' >>= fun _ => next').outcome := by
  rw [Run.outcome_bind, Run.outcome_bind, Run.outcome_noteIf, Run.outcome_noteIf]
  exact later

end CollectorMemory
