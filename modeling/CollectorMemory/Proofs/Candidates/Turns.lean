import Mathlib.Data.List.Basic

/-!
# Taking turns

Members of a team take steps one at a time, and a schedule lists whose turn it is. Where each step
leaves its member with fewer steps to take, a member that takes its turn often enough has none left
(`Advances.exhausted`).
-/

namespace CollectorMemory

variable {α : Type} {left : α → Nat} {turn : Nat} {schedule : List Nat} {member after : α}
  {team middle later : List α}

/-- Replacing a member replaces one element of the team. -/
theorem exists_split (found : team[turn]? = some member) :
    ∃ front back, team = front ++ member :: back ∧
      ∀ after, team.set turn after = front ++ after :: back := by
  obtain ⟨inside, isMember⟩ := List.getElem?_eq_some_iff.mp found
  refine ⟨team.take turn, team.drop (turn + 1), ?_, fun after => ?_⟩
  · rw [← isMember, ← List.drop_eq_getElem_cons inside, List.take_append_drop]
  · rw [List.set_eq_take_append_cons_drop, if_pos inside]

/-- Each member of a team has taken its turns of a schedule: as many fewer are left of the steps that
it has to take. -/
def Advances (left : α → Nat) (schedule : List Nat) (team later : List α) : Prop :=
  later.length = team.length ∧ ∀ (index : Nat) (member : α), team[index]? = some member →
    ∃ after, later[index]? = some after ∧ left after ≤ left member - schedule.count index

namespace Advances

/-- Without turns nothing changes. -/
theorem refl (team : List α) : Advances left [] team team :=
  ⟨rfl, fun _ member isMember => ⟨member, isMember, Nat.le_refl _⟩⟩

/-- A turn of nobody. -/
theorem of_none (nobody : team[turn]? = none) : Advances left [turn] team team := by
  refine ⟨rfl, fun index member isMember => ⟨member, isMember, ?_⟩⟩
  have differs : turn ≠ index := by
    rintro rfl
    rw [isMember] at nobody
    cases nobody
  rw [List.count_singleton, if_neg (by simpa using differs)]
  exact Nat.le_refl _

/-- A turn that leaves its member with fewer steps to take. -/
theorem of_step (found : team[turn]? = some member) (fewer : left after ≤ left member - 1) :
    Advances left [turn] team (team.set turn after) := by
  refine ⟨List.length_set, fun index other isOther => ?_⟩
  rw [List.count_singleton]
  by_cases same : turn = index
  · subst same
    obtain rfl := Option.some.inj (found.symm.trans isOther)
    obtain ⟨inside, _⟩ := List.getElem?_eq_some_iff.mp found
    rw [beq_self_eq_true, if_pos rfl]
    exact ⟨after, List.getElem?_set_self inside, fewer⟩
  · rw [if_neg (by simpa using same), List.getElem?_set_ne same]
    exact ⟨other, isOther, Nat.le_refl _⟩

/-- One turn and then those of a schedule. -/
theorem cons (first : Advances left [turn] team middle) (rest : Advances left schedule middle later) :
    Advances left (turn :: schedule) team later := by
  refine ⟨rest.1.trans first.1, fun index member isMember => ?_⟩
  obtain ⟨between, isBetween, le⟩ := first.2 index member isMember
  obtain ⟨after, isAfter, leAfter⟩ := rest.2 index between isBetween
  refine ⟨after, isAfter, ?_⟩
  rw [List.count_singleton] at le
  rw [List.count_cons]
  omega

/-- Members with enough turns have no steps left to take. -/
theorem exhausted (advances : Advances left schedule team later)
    (enough : ∀ index member, team[index]? = some member → left member ≤ schedule.count index) :
    ∀ member ∈ later, left member = 0 := by
  intro member isMember
  obtain ⟨index, inside, isAfter⟩ := List.mem_iff_getElem.mp isMember
  have before : index < team.length := by
    rw [← advances.1]
    exact inside
  obtain ⟨after, found, le⟩ := advances.2 index team[index] (List.getElem?_eq_getElem before)
  have most := enough index team[index] (List.getElem?_eq_getElem before)
  rw [List.getElem?_eq_getElem inside, isAfter] at found
  obtain rfl := Option.some.inj found
  omega

end Advances

end CollectorMemory
