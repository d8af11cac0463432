import CollectorMemory.Proofs.Ensures

/-!
# Chunks that a run returns

A run reports every chunk that it puts into a free pool. Its account is its result together with these
chunks, in the order in which they were put in, so what a run returns is described along with what it
leaves. Most steps return nothing.
-/

namespace CollectorMemory

variable {α β : Type} {excuse : Prop}

/-- The chunk that an event reports to be put into a free pool, if it reports one. -/
def Event.returned? : Event → Option Chunk
  | .returned _ chunk => some chunk
  | _ => none

namespace Run

/-- The chunks that a run put into a free pool, in order. -/
def returned (run : Run α) : List Chunk := run.events.filterMap Event.returned?

/-- The result of a run with the chunks that it put into a free pool, or its fault. -/
def account (run : Run α) : Except Fault (α × List Chunk) :=
  run.outcome.map fun value => (value, run.returned)

/-- A result is accounted for with what was returned. -/
theorem account_eq_ok {run : Run α} {value : α} (done : run.outcome = .ok value) :
    run.account = .ok (value, run.returned) := by
  unfold account
  rw [done]
  rfl

/-- What is accounted for is the result and what was returned. -/
theorem of_account_eq_ok {run : Run α} {value : α} {told : List Chunk}
    (accounted : run.account = .ok (value, told)) : run.outcome = .ok value ∧ run.returned = told := by
  unfold account at accounted
  cases done : run.outcome with
  | error fault =>
    rw [done] at accounted
    cases accounted
  | ok result =>
    rw [done] at accounted
    cases accounted
    exact ⟨rfl, rfl⟩

/-- Two runs in sequence return what the first does, and then what the second does. -/
theorem returned_bind {first : Run α} {next : α → Run β} {value : α}
    (done : first.outcome = .ok value) :
    (first >>= next).returned = first.returned ++ (next value).returned := by
  obtain ⟨events, outcome⟩ := first
  change outcome = .ok value at done
  subst done
  exact List.filterMap_append

/-- The account of two runs in sequence is that of the first, followed by that of the second. -/
theorem account_bind (first : Run α) (next : α → Run β) :
    (first >>= next).account = first.account >>= fun (value, told) =>
      (next value).account.map fun (result, more) => (result, told ++ more) := by
  cases done : first.outcome with
  | error fault =>
    unfold account
    rw [outcome_bind, done]
    rfl
  | ok value =>
    rw [account_eq_ok done]
    unfold account
    rw [outcome_bind, done, returned_bind done]
    change ((next value).outcome.map _) = ((next value).outcome.map _).map _
    cases (next value).outcome <;> rfl

/-- Runs that return nothing in sequence return nothing. -/
theorem returned_bind_eq_nil {first : Run α} {next : α → Run β} (nothing : first.returned = [])
    (later : ∀ value, (next value).returned = []) : (first >>= next).returned = [] := by
  cases done : first.outcome with
  | ok value => rw [returned_bind done, nothing, later, List.append_nil]
  | error fault =>
    obtain ⟨events, outcome⟩ := first
    change outcome = .error fault at done
    subst done
    exact nothing

/-- Reporting an event on some occasion returns nothing if the event is of another kind. -/
theorem returned_noteIf {occasion : Bool} {event : Event} (other : event.returned? = none) :
    (noteIf occasion event).returned = [] := by
  cases occasion with
  | false => rfl
  | true =>
    change [event].filterMap Event.returned? = []
    rw [List.filterMap_cons_none other, List.filterMap_nil]

end Run

/-- What is ensured of an account is ensured of the outcome, as far as it speaks of the result. -/
theorem Ensures.outcome {run : Run α} {post : α × List Chunk → Prop} {weaker : α → Prop}
    (ensured : Ensures excuse run.account post)
    (weaken : ∀ value told, post (value, told) → weaker value) :
    Ensures excuse run.outcome weaker := by
  unfold Run.account at ensured
  cases done : run.outcome with
  | error fault =>
    rw [done] at ensured
    exact ensured
  | ok value =>
    rw [done] at ensured
    exact weaken value run.returned ensured

/-- What is ensured of the outcome of a run that returns nothing is ensured of its account. -/
theorem Ensures.account {run : Run α} {post : α → Prop} (ensured : Ensures excuse run.outcome post)
    (nothing : run.returned = []) :
    Ensures excuse run.account fun (value, told) => post value ∧ told = [] := by
  unfold Run.account
  cases done : run.outcome with
  | error fault =>
    rw [done] at ensured
    exact ensured
  | ok value =>
    rw [done] at ensured
    exact ⟨ensured, nothing⟩

/-- Two runs in sequence, where the second starts from what the first ensures and returned. -/
theorem Ensures.bindAccount {first : Run α} {next : α → Run β} {middle : α × List Chunk → Prop}
    {post : β × List Chunk → Prop} (ensured : Ensures excuse first.account middle)
    (later : ∀ value told, middle (value, told) → Ensures excuse (next value).account
      fun (result, more) => post (result, told ++ more)) :
    Ensures excuse (first >>= next).account post := by
  rw [Run.account_bind]
  apply ensured.bind
  intro (value, told) known
  have ensuredLater := later value told known
  dsimp only
  cases done : (next value).account with
  | ok result =>
    rw [done] at ensuredLater
    exact ensuredLater
  | error fault =>
    rw [done] at ensuredLater
    exact ensuredLater

/-- Two runs in sequence of which the first returns nothing. -/
theorem Ensures.bindSilent {first : Run α} {next : α → Run β} {middle : α → Prop}
    {post : β × List Chunk → Prop} (nothing : first.returned = [])
    (ensured : Ensures excuse first.outcome middle)
    (later : ∀ value, middle value → Ensures excuse (next value).account post) :
    Ensures excuse (first >>= next).account post := by
  refine Ensures.bindAccount (ensured.account nothing) ?_
  rintro value told ⟨known, rfl⟩
  exact later value known

end CollectorMemory
