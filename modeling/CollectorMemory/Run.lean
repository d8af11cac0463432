import CollectorMemory.Event
import CollectorMemory.Fault

/-!
# Runs

A run is what an operation leaves: the events that it reported, in order, and its outcome. Events
that were reported before a fault are kept. Runs in sequence report one after the other and stop at
the first fault (`Run.outcome_bind`), so what an operation does can be read off outcomes alone.
-/

namespace CollectorMemory

/-- The events of an operation and its outcome. -/
structure Run (α : Type) where
  /-- What was reported, first event first. -/
  events : List Event
  /-- The result, or the fault that stopped the operation. -/
  outcome : Except Fault α

namespace Run

variable {α β : Type}

/-- Do the second operation with the result of the first, unless that stopped. -/
protected def bind (first : Run α) (next : α → Run β) : Run β :=
  match first.outcome with
  | .ok value =>
    let second := next value
    ⟨first.events ++ second.events, second.outcome⟩
  | .error fault => ⟨first.events, .error fault⟩

instance : Monad Run where
  pure value := ⟨[], .ok value⟩
  bind := Run.bind

/-- An operation that reports nothing. -/
def silent (outcome : Except Fault α) : Run α := ⟨[], outcome⟩

instance : MonadLift (Except Fault) Run where
  monadLift := silent

/-- Report one event. -/
def note (event : Event) : Run Unit := ⟨[event], .ok ()⟩

/-- Report one event if there is an occasion for it. -/
def noteIf (occasion : Bool) (event : Event) : Run Unit :=
  if occasion then note event else pure ()

/-- Stop with a fault. -/
def fail (fault : Fault) : Run α := ⟨[], .error fault⟩

@[simp] theorem outcome_pure (value : α) : (pure value : Run α).outcome = .ok value := rfl

@[simp] theorem outcome_silent (outcome : Except Fault α) : (silent outcome).outcome = outcome :=
  rfl

@[simp] theorem outcome_liftM (outcome : Except Fault α) :
    (liftM outcome : Run α).outcome = outcome := rfl

@[simp] theorem outcome_noteIf (occasion : Bool) (event : Event) :
    (noteIf occasion event).outcome = .ok () := by
  cases occasion <;> rfl

@[simp] theorem outcome_note (event : Event) : (note event).outcome = .ok () := rfl

@[simp] theorem outcome_fail (fault : Fault) : (fail fault : Run α).outcome = .error fault := rfl

/-- The outcome of two runs in sequence is the sequence of their outcomes. -/
@[simp] theorem outcome_bind (first : Run α) (next : α → Run β) :
    (first >>= next).outcome = first.outcome >>= fun value => (next value).outcome := by
  obtain ⟨events, outcome⟩ := first
  cases outcome <;> rfl

instance : LawfulMonad Run :=
  LawfulMonad.mk' Run
    (fun run => by
      obtain ⟨events, outcome⟩ := run
      cases outcome <;> simp [Functor.map, Run.bind, Function.comp])
    (fun value next => by simp [bind, Run.bind, pure])
    (fun run next later => by
      obtain ⟨events, outcome⟩ := run
      cases outcome with
      | error fault => rfl
      | ok value =>
        simp only [bind, Run.bind]
        cases (next value).outcome <;> simp)

end Run

end CollectorMemory
