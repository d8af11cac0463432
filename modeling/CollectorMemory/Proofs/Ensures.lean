import CollectorMemory.Count
import CollectorMemory.Run
import Mathlib.Data.Nat.ModEq
import Mathlib.Order.Bounds.Defs

/-!
# Outcomes that meet a condition

`Ensures excuse outcome post` says of an outcome that it is a result with the property `post`, or a
fault that `excuse` allows. With a false excuse there is no fault, and with a true one only results
are spoken of, so one lemma for an operation serves both readings. Bounds that keep counts inside of
a machine word are asked for where there is no excuse.
-/

namespace CollectorMemory

variable {α β : Type} {excuse : Prop}

/-- The outcome is a result with the property, or a fault that is excused. -/
def Ensures (excuse : Prop) (outcome : Except Fault α) (post : α → Prop) : Prop :=
  match outcome with
  | .ok value => post value
  | .error _ => excuse

/-- A result has the property that is ensured of it. -/
theorem Ensures.of_ok {outcome : Except Fault α} {post : α → Prop} {value : α}
    (ensured : Ensures excuse outcome post) (done : outcome = .ok value) : post value := by
  rw [done] at ensured
  exact ensured

/-- Without an excuse there is a result, and it has the property. -/
theorem Ensures.exists_ok {outcome : Except Fault α} {post : α → Prop}
    (ensured : Ensures False outcome post) : ∃ value, outcome = .ok value ∧ post value := by
  cases outcome with
  | ok value => exact ⟨value, rfl, ensured⟩
  | error fault => exact ensured.elim

/-- Without an excuse there is the one result that has the property. -/
theorem Ensures.eq_ok {outcome : Except Fault α} {post : α → Prop} {value : α}
    (ensured : Ensures False outcome post) (only : ∀ result, post result → result = value) :
    outcome = .ok value := by
  obtain ⟨result, done, holds⟩ := ensured.exists_ok
  rw [done, only result holds]

/-- A result that is known ensures its properties. -/
theorem ensures_of_eq_ok {outcome : Except Fault α} {post : α → Prop} {value : α}
    (done : outcome = .ok value) (holds : post value) : Ensures excuse outcome post := by
  rw [done]
  exact holds

/-- A result that is known is ensured. -/
theorem ensures_eq {outcome : Except Fault α} {value : α} (done : outcome = .ok value) :
    Ensures excuse outcome fun result => result = value :=
  ensures_of_eq_ok done rfl

/-- Nothing is ensured of an outcome whose faults are excused. -/
theorem ensures_excused (outcome : Except Fault α) : Ensures True outcome fun _ => True := by
  cases outcome <;> trivial

/-- Where faults are excused, a result is the result. -/
theorem ensures_returned (outcome : Except Fault α) :
    Ensures True outcome fun value => outcome = .ok value := by
  cases outcome <;> trivial

/-- Where faults are excused, only results matter. -/
theorem Ensures.of_excuse {outcome : Except Fault α} {post : α → Prop} (excused : excuse)
    (ensured : Ensures True outcome post) : Ensures excuse outcome post := by
  cases outcome with
  | ok value => exact ensured
  | error fault => exact excused

/-- A property of the result, if there is one, comes in addition to what is ensured. -/
theorem Ensures.and {outcome : Except Fault α} {post other : α → Prop}
    (ensured : Ensures excuse outcome post) (known : Ensures True outcome other) :
    Ensures excuse outcome fun value => post value ∧ other value := by
  cases outcome with
  | ok value => exact ⟨ensured, known⟩
  | error fault => exact ensured

/-- A weaker property is ensured as well. -/
theorem Ensures.mono {outcome : Except Fault α} {post weaker : α → Prop}
    (ensured : Ensures excuse outcome post) (weaken : ∀ value, post value → weaker value) :
    Ensures excuse outcome weaker := by
  cases outcome with
  | ok value => exact weaken value ensured
  | error fault => exact ensured

/-- Two operations in sequence, where the second starts from what the first ensures. -/
theorem Ensures.bind {first : Except Fault α} {next : α → Except Fault β} {middle : α → Prop}
    {post : β → Prop} (ensured : Ensures excuse first middle)
    (later : ∀ value, middle value → Ensures excuse (next value) post) :
    Ensures excuse (first >>= next) post := by
  cases first with
  | ok value => exact later value ensured
  | error fault => exact ensured

/-- Two operations in sequence have a result exactly if the first has one from which the second comes to
it. -/
theorem bind_eq_ok_iff {first : Except Fault α} {next : α → Except Fault β} {result : β} :
    (first >>= next) = .ok result ↔ ∃ value, first = .ok value ∧ next value = .ok result := by
  cases first with
  | ok value =>
    constructor
    · exact fun done => ⟨value, rfl, done⟩
    · intro ⟨_, same, done⟩
      cases same
      exact done
  | error fault =>
    constructor
    · exact fun done => nomatch done
    · exact fun ⟨_, failed, _⟩ => nomatch failed

/-- An operation behind a check has a result exactly if the check passes and it has one. -/
theorem require_bind_eq_ok_iff {condition : Bool} {fault : Fault} {next : Unit → Except Fault β}
    {result : β} :
    (require condition fault >>= next) = .ok result ↔ condition = true ∧ next () = .ok result := by
  rw [bind_eq_ok_iff]
  constructor
  · exact fun ⟨_, passed, done⟩ => ⟨require_eq_ok_iff.mp passed, done⟩
  · exact fun ⟨holds, done⟩ => ⟨(), require_eq_ok_iff.mpr holds, done⟩

/-- Two runs in sequence, where the second starts from what the first ensures. -/
theorem Ensures.bindRun {first : Run α} {next : α → Run β} {middle : α → Prop} {post : β → Prop}
    (ensured : Ensures excuse first.outcome middle)
    (later : ∀ value, middle value → Ensures excuse (next value).outcome post) :
    Ensures excuse (first >>= next).outcome post := by
  rw [Run.outcome_bind]
  exact ensured.bind later

/-- Reporting an event changes nothing of what comes after it. -/
theorem ensures_note {event : Event} {next : Run β} {post : β → Prop}
    (later : Ensures excuse next.outcome post) :
    Ensures excuse (Run.note event >>= fun _ => next).outcome post := by
  rw [Run.outcome_bind]
  exact later

/-- Reporting an event on some occasion changes nothing of what comes after it. -/
theorem ensures_noteIf {occasion : Bool} {event : Event} {next : Run β} {post : β → Prop}
    (later : Ensures excuse next.outcome post) :
    Ensures excuse (Run.noteIf occasion event >>= fun _ => next).outcome post := by
  rw [Run.outcome_bind, Run.outcome_noteIf]
  exact later

/-- A check that must hold where there is no excuse, and that holds afterwards. -/
theorem ensures_require {condition : Bool} {fault : Fault} (holds : ¬excuse → condition = true) :
    Ensures excuse (require condition fault) fun _ => condition = true := by
  cases condition with
  | true => rfl
  | false => exact Classical.byContradiction fun hard => absurd (holds hard) Bool.false_ne_true

/-- A check that is made only where it is asked for. -/
theorem ensures_checkIf {asked : Bool} {check : Except Fault Unit}
    (passes : asked = true → Ensures excuse check fun _ => True) :
    Ensures excuse (checkIf asked check) fun _ => True := by
  cases asked with
  | true => exact passes rfl
  | false => trivial

/-- A check of every element of a list. -/
theorem ensures_forM {values : List α} {check : α → Except Fault Unit}
    (passes : ∀ value ∈ values, Ensures excuse (check value) fun _ => True) :
    Ensures excuse (values.forM check) fun _ => True := by
  induction values with
  | nil => trivial
  | cons head rest ih =>
    change Ensures excuse (check head >>= fun _ => rest.forM check) _
    apply Ensures.bind (passes head List.mem_cons_self)
    intro _ _
    exact ih fun value member => passes value (List.mem_cons_of_mem head member)

/-- A check of every element of a list that reports events. -/
theorem ensures_forMRun {values : List α} {check : α → Run Unit}
    (passes : ∀ value ∈ values, Ensures excuse (check value).outcome fun _ => True) :
    Ensures excuse (values.forM check).outcome fun _ => True := by
  induction values with
  | nil => trivial
  | cons head rest ih =>
    change Ensures excuse (check head >>= fun _ => rest.forM check).outcome _
    apply Ensures.bindRun (passes head List.mem_cons_self)
    intro _ _
    exact ih fun value member => passes value (List.mem_cons_of_mem head member)

/-- The results for all elements of a list are ensured one by one. -/
theorem ensures_mapM {values : List α} {make : α → Except Fault β} {post : α → β → Prop}
    (each : ∀ value ∈ values, Ensures excuse (make value) (post value)) :
    Ensures excuse (values.mapM make) (List.Forall₂ post values) := by
  induction values with
  | nil => exact List.Forall₂.nil
  | cons head rest ih =>
    rw [List.mapM_cons]
    apply Ensures.bind (each head List.mem_cons_self)
    intro result isResult
    apply Ensures.bind (ih fun value member => each value (List.mem_cons_of_mem head member))
    intro results areResults
    exact List.Forall₂.cons isResult areResults

namespace Count

/-- A number that must be a count. -/
theorem check_ensures {value : Nat} (fits : ¬excuse → value < wordLimit) :
    Ensures excuse (check value) fun result => result = value ∧ value < wordLimit := by
  unfold check
  split
  · next inside => exact ⟨rfl, inside⟩
  · next outside => exact Classical.byContradiction fun hard => outside (fits hard)

/-- A sum that must be a count. -/
theorem add_ensures {left right : Nat} (fits : ¬excuse → left + right < wordLimit) :
    Ensures excuse (add left right) fun result =>
      result = left + right ∧ left + right < wordLimit :=
  check_ensures fits

/-- A product that must be a count. -/
theorem mul_ensures {left right : Nat} (fits : ¬excuse → left * right < wordLimit) :
    Ensures excuse (mul left right) fun result =>
      result = left * right ∧ left * right < wordLimit :=
  check_ensures fits

/-- A difference of counts in order. -/
theorem sub_ensures {left right : Nat} (ordered : ¬excuse → right ≤ left) :
    Ensures excuse (sub left right) fun result => result = left - right ∧ right ≤ left := by
  unfold sub
  split
  · next inside => exact ⟨rfl, inside⟩
  · next outside => exact Classical.byContradiction fun hard => outside (ordered hard)

/-- A sum of counts of half a word. -/
theorem addHalf_ensures {left right : Nat} (fits : ¬excuse → left + right < 2 ^ 32) :
    Ensures excuse (addHalf left right) fun result =>
      result = left + right ∧ left + right < 2 ^ 32 := by
  unfold addHalf
  split
  · next inside => exact ⟨rfl, inside⟩
  · next outside => exact Classical.byContradiction fun hard => outside (fits hard)

/-- A sum of a list that must be a count. -/
theorem sum_ensures {values : List Nat} (fits : ¬excuse → values.sum < wordLimit) :
    Ensures excuse (sum values) fun result => result = values.sum := by
  have accumulated : ∀ start, (¬excuse → start + values.sum < wordLimit) →
      Ensures excuse (values.foldlM add start) fun result => result = start + values.sum := by
    clear fits
    induction values with
    | nil => exact fun start _ => (Nat.add_zero start).symm
    | cons head rest ih =>
      intro start fits
      rw [List.foldlM_cons]
      rw [List.sum_cons] at fits ⊢
      apply Ensures.bind (add_ensures fun hard => by have := fits hard; omega)
      rintro total ⟨rfl, _⟩
      apply (ih (start + head) fun hard => by have := fits hard; omega).mono
      intro result exact_
      omega
  have whole := accumulated 0 (by simpa using fits)
  rw [Nat.zero_add] at whole
  exact whole

/-- The least multiple of a step that is not below a number, where no bound is checked. -/
def nextMultiple (value step : Nat) : Nat := (value + step - 1) / step * step

variable {value step : Nat}

/-- The next multiple is a multiple. -/
theorem nextMultiple_mod (value step : Nat) : nextMultiple value step % step = 0 :=
  Nat.mul_mod_left _ _

/-- The next multiple is the number or less than a step above it. -/
theorem nextMultiple_bounds (value : Nat) (positive : 0 < step) :
    value ≤ nextMultiple value step ∧ nextMultiple value step < value + step := by
  have division := Nat.div_add_mod (value + step - 1) step
  have remainder := Nat.mod_lt (value + step - 1) positive
  rw [Nat.mul_comm] at division
  unfold nextMultiple
  omega

/-- No multiple between a number and its next multiple is missed. -/
theorem nextMultiple_le {multiple : Nat} (positive : 0 < step) (whole : multiple % step = 0)
    (le : value ≤ multiple) : nextMultiple value step ≤ multiple := by
  have bounds := nextMultiple_bounds value positive
  exact Nat.le_of_lt_add_of_dvd (show nextMultiple value step < multiple + step by omega)
    (Nat.dvd_of_mod_eq_zero (nextMultiple_mod value step)) (Nat.dvd_of_mod_eq_zero whole)

/-- The next multiple is the least multiple that is not below the number. -/
theorem isLeast_nextMultiple (value : Nat) (positive : 0 < step) :
    IsLeast {multiple | step ∣ multiple ∧ value ≤ multiple} (nextMultiple value step) :=
  ⟨⟨Nat.dvd_of_mod_eq_zero (nextMultiple_mod value step), (nextMultiple_bounds value positive).1⟩,
    fun _ ⟨divides, le⟩ => nextMultiple_le positive (Nat.mod_eq_zero_of_dvd divides) le⟩

/-- Rounding up stops exactly if the next multiple is no count. -/
theorem roundUp_eq_check (value : Nat) (positive : 0 < step) :
    roundUp value step = check (nextMultiple value step) := by
  unfold roundUp
  rw [decide_eq_true positive]
  rfl

/-- The least multiple of a step that is not below a number, if it is a count. -/
theorem roundUp_eq_nextMultiple (positive : ¬excuse → 0 < step)
    (fits : ¬excuse → nextMultiple value step < wordLimit) :
    Ensures excuse (roundUp value step) fun result =>
      0 < step ∧ result < wordLimit ∧ result = nextMultiple value step := by
  unfold roundUp
  apply Ensures.bind (ensures_require fun hard => decide_eq_true (positive hard))
  intro _ checked
  apply (check_ensures fits).mono
  rintro result ⟨rfl, inside⟩
  exact ⟨of_decide_eq_true checked, inside, rfl⟩

/-- The least multiple of a step that is not below a number. -/
theorem roundUp_ensures (positive : ¬excuse → 0 < step)
    (fits : ¬excuse → value + step ≤ wordLimit) :
    Ensures excuse (roundUp value step) fun result =>
      0 < step ∧ result % step = 0 ∧ value ≤ result ∧ result < value + step ∧
        result < wordLimit ∧ result = nextMultiple value step := by
  apply (roundUp_eq_nextMultiple positive fun hard =>
    Nat.lt_of_lt_of_le (nextMultiple_bounds value (positive hard)).2 (fits hard)).mono
  rintro result ⟨stepPositive, inside, rfl⟩
  have bounds := nextMultiple_bounds value stepPositive
  exact ⟨stepPositive, nextMultiple_mod value step, bounds.1, bounds.2, inside, rfl⟩

/-- The greatest multiple of a step that is not above a number. -/
theorem roundDown_ensures {value step : Nat} (positive : 0 < step) :
    Ensures excuse (roundDown value step) fun result => result = value / step * step := by
  unfold roundDown
  apply Ensures.bind (ensures_require fun _ => decide_eq_true positive)
  intro _ _
  rfl

/-- Whether a number is a multiple of a step. -/
theorem isMultiple_ensures {value step : Nat} (positive : 0 < step) :
    Ensures excuse (isMultiple value step) fun result => result = (value % step == 0) := by
  unfold isMultiple
  apply Ensures.bind (ensures_require fun _ => decide_eq_true positive)
  intro _ _
  rfl

end Count

end CollectorMemory
