import CollectorMemory.Proofs.Options.Bulk
import Mathlib.Data.List.Forall2
import Mathlib.Data.List.Pairwise

/-!
# What the environment does to options

An entry of the environment names an option if its name is the mark and then the name of the option in
any letter case. If no option is named twice, every option that is named has, after the environment is
read, the value of the one entry that names it, if that is a value which the option admits, and all other
options stay. So the order of the entries does not matter (`readEnvironment_unordered`), and entries that
name no option do not matter at all.
-/

namespace CollectorMemory

variable {options after : Options} {field other : Field} {environment rest : List (String × String)}
  {entry : String × String} {name value : String}

namespace Environment

/-- A character writes a letter of an option's name: its small form is the letter, or it is the Kelvin
sign for a k. -/
def Writes (letter char : Char) : Prop := char.toLower = letter ∨ letter = 'k' ∧ char = '\u212a'

/-- The name of an entry names an option: it is the mark and then the name of the option, in any letter
case. -/
def Names (field : Field) (name : String) : Prop :=
  ∃ rest, name.toList = mark.toList ++ rest ∧ List.Forall₂ Writes field.name.toList rest

/-- No option is named by both of two entries. -/
def Differ (first second : String × String) : Prop :=
  ∀ field, Names field first.1 → ¬Names field second.1

instance : Std.Symm Differ :=
  ⟨fun _ _ differ field isSecond isFirst => differ field isFirst isSecond⟩

/-- No option is named twice. -/
def NamedOnce (environment : List (String × String)) : Prop := environment.Pairwise Differ

/-- An entry gives an option a value: it names the option, and its text reads as the value, which the
option admits. -/
def Gives (field : Field) (value : field.Value) (entry : String × String) : Prop :=
  Names field entry.1 ∧ field.Reads entry.2.toList value ∧ field.Admits value

/-- What a text has after a mark that it begins with. -/
theorem after?_eq_some_iff {mark text rest : List Char} :
    after? mark text = some rest ↔ text = mark ++ rest := by
  induction mark generalizing text with
  | nil =>
    unfold after?
    rw [Option.some.injEq, List.nil_append]
  | cons expected mark ih =>
    cases text with
    | nil => exact ⟨nofun, nofun⟩
    | cons char text =>
      unfold after?
      rw [List.cons_append, List.cons.injEq, ← ih, Option.ite_none_right_eq_some]

/-- The characters that are lowered to a letter of an option's name are those that write it. -/
theorem lowered_eq_iff {letter char : Char} (member : letter ∈ field.name.toList) :
    lowered char = letter ↔ Writes letter char := by
  have plain : letter ≠ '\u212a' := by
    have noKelvin : (field.name.toList.all fun char => char != '\u212a') = true := by
      cases field with
      | audited => rfl
      | count field => cases field <;> rfl
    exact bne_iff_ne.mp (List.all_eq_true.mp noKelvin letter member)
  unfold lowered Writes
  by_cases kelvin : char = '\u212a'
  · subst kelvin
    rw [if_pos rfl]
    constructor
    · exact fun same => Or.inr ⟨same.symm, rfl⟩
    · rintro (same | ⟨same, _⟩)
      · exact absurd same.symm plain
      · exact same.symm
  · rw [if_neg kelvin]
    exact ⟨Or.inl, fun writes => writes.resolve_right fun isKelvin => kelvin isKelvin.2⟩

/-- A text is lowered to the name of an option exactly if it writes the name. -/
theorem map_lowered_eq_iff {text : List Char} :
    text.map lowered = field.name.toList ↔ List.Forall₂ Writes field.name.toList text := by
  have letters : ∀ letters : List Char, (∀ letter ∈ letters, letter ∈ field.name.toList) →
      (text.map lowered = letters ↔ List.Forall₂ Writes letters text) := by
    intro letters all
    induction letters generalizing text with
    | nil => rw [List.map_eq_nil_iff, List.forall₂_nil_left_iff]
    | cons letter letters ih =>
      obtain ⟨member, others⟩ := List.forall_mem_cons.mp all
      cases text with
      | nil => exact ⟨nofun, nofun⟩
      | cons char text =>
        rw [List.map_cons, List.cons.injEq, List.forall₂_cons, lowered_eq_iff member, ih others]
  exact letters _ fun _ member => member

/-- The name of an entry names an option exactly if what follows the mark is lowered to its name. -/
theorem names_iff :
    Names field name ↔ ∃ rest, after? mark.toList name.toList = some rest ∧
      String.ofList (rest.map lowered) = field.name := by
  have spells : ∀ rest : List Char, List.Forall₂ Writes field.name.toList rest ↔
      String.ofList (rest.map lowered) = field.name := by
    intro rest
    rw [← map_lowered_eq_iff, ← String.toList_inj, String.toList_ofList]
  unfold Names
  simp only [after?_eq_some_iff, spells]

/-- An entry is a setting of an option exactly if it names the option. -/
theorem setting?_eq_some_iff {setting : String × String} :
    setting? entry = some setting ↔
      ∃ field, Names field entry.1 ∧ setting = (field.name, entry.2) := by
  unfold setting?
  simp only [names_iff]
  cases after? mark.toList entry.1.toList with
  | none => exact ⟨nofun, fun ⟨_, ⟨_, isSome, _⟩, _⟩ => nomatch isSome⟩
  | some rest =>
    dsimp only
    constructor
    · intro isSetting
      obtain ⟨known, isSome⟩ := Option.ite_none_right_eq_some.mp isSetting
      obtain rfl := Option.some.inj isSome
      obtain ⟨field, found⟩ := Option.isSome_iff_exists.mp known
      have isName := Field.ofName?_eq_some_iff.mp found
      exact ⟨field, ⟨rest, rfl, isName.symm⟩, by rw [isName]⟩
    · rintro ⟨field, ⟨_, ⟨⟩, isName⟩, rfl⟩
      rw [isName, Field.ofName?_name]
      rfl

/-- A name names one option at most. -/
theorem Names.unique (first : Names field name) (second : Names other name) : field = other := by
  obtain ⟨rest, isRest, isFirst⟩ := names_iff.mp first
  obtain ⟨_, isRest', isSecond⟩ := names_iff.mp second
  obtain rfl := Option.some.inj (isRest.symm.trans isRest')
  have found := Field.ofName?_name field
  rw [← isFirst, isSecond, Field.ofName?_name other] at found
  exact (Option.some.inj found).symm

/-- Entries that are not both settings, or settings of different names, do not name the same option. -/
theorem differ_of_setting? {first second : String × String}
    (differ : (setting? first).map Prod.fst ≠ (setting? second).map Prod.fst ∨ setting? first = none) :
    Differ first second := by
  intro field isFirst isSecond
  rw [setting?_eq_some_iff.mpr ⟨field, isFirst, rfl⟩,
    setting?_eq_some_iff.mpr ⟨field, isSecond, rfl⟩] at differ
  rcases differ with differ | isNone
  · exact differ rfl
  · cases isNone

end Environment

namespace Options

open Environment

/-- An entry either gives an option a value, which is then set before the others are read, or it leaves
the options to the others as they are. -/
theorem readEnvironment_cons (options : Options) (entry : String × String)
    (rest : List (String × String)) :
    (∃ (field : Field) (value : field.Value) (next : Options), Gives field value entry ∧
      Sets field value options next ∧
      (options.readEnvironment (entry :: rest)).1 = (next.readEnvironment rest).1) ∨
    (∀ (field : Field) (value : field.Value), ¬Gives field value entry) ∧
      (options.readEnvironment (entry :: rest)).1 = (options.readEnvironment rest).1 := by
  unfold readEnvironment
  cases isSetting : setting? entry with
  | none =>
    rw [List.filterMap_cons_none isSetting]
    refine Or.inr ⟨fun field value gives => ?_, rfl⟩
    rw [setting?_eq_some_iff.mpr ⟨field, gives.1, rfl⟩] at isSetting
    cases isSetting
  | some setting =>
    obtain ⟨field, names, rfl⟩ := setting?_eq_some_iff.mp isSetting
    rw [List.filterMap_cons_some isSetting, assignEach]
    dsimp only
    cases outcome : options.assign field.name entry.2 with
    | ok next =>
      obtain ⟨other, value, sameName, reads, admits, sets⟩ := exists_reads_of_assign outcome
      obtain rfl : other = field := by
        have found := Field.ofName?_name other
        rw [sameName, Field.ofName?_name field] at found
        exact (Option.some.inj found).symm
      exact Or.inl ⟨other, value, next, ⟨names, reads, admits⟩, sets, rfl⟩
    | error refusal =>
      refine Or.inr ⟨fun other value gives => ?_, rfl⟩
      obtain ⟨namesOther, reads, admits⟩ := gives
      obtain rfl := names.unique namesOther
      have assigned : ∃ next, options.assign field.name entry.2 = .ok next ∧
          Sets field value options next := assign_of_reads reads admits
      obtain ⟨next, isNext, -⟩ := assigned
      cases outcome.symm.trans isNext

/-- An option that no entry gives a value keeps its own. -/
theorem value_readEnvironment_of_not_gives
    (nothing : ∀ entry ∈ environment, ∀ value, ¬Gives field value entry) :
    (options.readEnvironment environment).1.value field = options.value field := by
  induction environment generalizing options with
  | nil => rfl
  | cons entry rest ih =>
    obtain ⟨nothingHere, nothingLater⟩ := List.forall_mem_cons.mp nothing
    obtain ⟨other, value, next, gives, sets, read⟩ | ⟨_, read⟩ :=
      options.readEnvironment_cons entry rest
    · have differs : field ≠ other := by
        rintro rfl
        exact nothingHere value gives
      rw [read, ih nothingLater, sets.others field differs]
    · rw [read, ih nothingLater]

/-- An option that is given a value has it, if no other entry names the option. -/
theorem value_readEnvironment_of_gives {value : field.Value} (once : NamedOnce environment)
    (member : entry ∈ environment) (gives : Gives field value entry) :
    (options.readEnvironment environment).1.value field = value := by
  induction environment generalizing options with
  | nil => cases member
  | cons first rest ih =>
    obtain ⟨apart, onceLater⟩ := List.pairwise_cons.mp once
    obtain ⟨other, value', next, givesFirst, sets, read⟩ | ⟨nothing, read⟩ :=
      options.readEnvironment_cons first rest
    · rw [read]
      rcases List.mem_cons.mp member with rfl | later
      · obtain rfl := gives.1.unique givesFirst.1
        have isValue : value' = value := givesFirst.2.1.unique gives.2.1
        rw [value_readEnvironment_of_not_gives fun second isSecond _ givesSecond =>
          apart second isSecond field gives.1 givesSecond.1, sets.value, isValue]
      · exact ih onceLater later
    · rw [read]
      rcases List.mem_cons.mp member with rfl | later
      · exact absurd gives (nothing field value)
      · exact ih onceLater later

/-- The reason why a change is refused, if it is. -/
def refusal? : Except Refusal Options → Option Refusal
  | .ok _ => none
  | .error refusal => some refusal

/-- Whether a value is refused, and why, does not depend on the options. -/
theorem refusal?_assign (left right : Options) (name word : String) :
    refusal? (left.assign name word) = refusal? (right.assign name word) := by
  unfold assign
  cases Field.ofName? name with
  | none => rfl
  | some field =>
    cases field with
    | audited => cases Setting.flag? word <;> rfl
    | count field =>
      cases Setting.count? word.toList with
      | none => rfl
      | some number =>
        dsimp only
        split <;> rfl

/-- Where refusals do not depend on the options, those of a list of changes are those of its items. -/
theorem refusals_assignEach {α : Type} {change : Options → α → Except Refusal Options}
    (steady : ∀ left right item, refusal? (change left item) = refusal? (change right item))
    (options base : Options) (items : List α) :
    (assignEach change options items).2 = items.filterMap fun item => refusal? (change base item) := by
  induction items generalizing options with
  | nil => rfl
  | cons item items ih =>
    rw [assignEach, List.filterMap_cons, ← steady options base item]
    cases change options item with
    | ok changed => exact ih changed
    | error refusal => exact congrArg (refusal :: ·) (ih options)

/-- Entries in another order are refused for the same reasons. -/
theorem refusals_readEnvironment_perm {reordered : List (String × String)}
    (perm : reordered.Perm environment) :
    (options.readEnvironment reordered).2.Perm (options.readEnvironment environment).2 := by
  have refusals : ∀ entries : List (String × String), (options.readEnvironment entries).2 =
      (entries.filterMap setting?).filterMap fun setting =>
        refusal? (options.assign setting.1 setting.2) := fun entries =>
    refusals_assignEach (fun left right setting => refusal?_assign left right setting.1 setting.2)
      options options _
  rw [refusals reordered, refusals environment]
  exact (perm.filterMap setting?).filterMap _

/-- The environment is read with the same outcome in every order, refusals in the order of their entries,
if no option is named twice. An option that is named takes the value of the entry if the text reads as
one that the option admits, and keeps its own if not; an option that is not named keeps its own; and an
entry that names no option may as well not be there. -/
theorem readEnvironment_unordered (options : Options) (once : NamedOnce environment) :
    (∀ reordered : List (String × String), reordered.Perm environment →
      (options.readEnvironment reordered).1 = (options.readEnvironment environment).1 ∧
      (options.readEnvironment reordered).2.Perm (options.readEnvironment environment).2) ∧
    (∀ field, ∀ entry ∈ environment, Names field entry.1 →
      (∀ value, field.Reads entry.2.toList value → field.Admits value →
        (options.readEnvironment environment).1.value field = value) ∧
      ((∀ value, field.Reads entry.2.toList value → ¬field.Admits value) →
        (options.readEnvironment environment).1.value field = options.value field)) ∧
    (∀ field, (∀ entry ∈ environment, ¬Names field entry.1) →
      (options.readEnvironment environment).1.value field = options.value field) ∧
    ∀ (before : List (String × String)) (entry : String × String) (behind : List (String × String)),
      environment = before ++ entry :: behind → (∀ field, ¬Names field entry.1) →
        options.readEnvironment environment = options.readEnvironment (before ++ behind) := by
  refine ⟨fun reordered perm => ⟨?_, refusals_readEnvironment_perm perm⟩, fun field entry member names =>
    ⟨fun value reads admits => value_readEnvironment_of_gives once member ⟨names, reads, admits⟩,
      fun refused => ?_⟩, fun field unnamed => ?_, ?_⟩
  · have onceReordered : NamedOnce reordered := (perm.pairwise_iff symm).mpr once
    apply eq_of_value
    intro field
    by_cases given : ∃ entry ∈ environment, ∃ value, Gives field value entry
    · obtain ⟨entry, member, value, gives⟩ := given
      rw [value_readEnvironment_of_gives once member gives,
        value_readEnvironment_of_gives onceReordered (perm.mem_iff.mpr member) gives]
    · have nothing : ∀ entry ∈ environment, ∀ value, ¬Gives field value entry :=
        fun entry member value gives => given ⟨entry, member, value, gives⟩
      rw [value_readEnvironment_of_not_gives nothing, value_readEnvironment_of_not_gives
        fun entry member => nothing entry (perm.mem_iff.mp member)]
  · apply value_readEnvironment_of_not_gives
    intro other isThere value gives
    have same : other = entry := by
      by_contra differs
      exact once.forall isThere member differs field gives.1 names
    rw [same] at gives
    exact refused value gives.2.1 gives.2.2
  · exact value_readEnvironment_of_not_gives fun entry member _ gives => unnamed entry member gives.1
  · rintro before entry behind rfl foreign
    have isNone : setting? entry = none := by
      cases isSetting : setting? entry with
      | none => rfl
      | some setting =>
        obtain ⟨field, names, _⟩ := setting?_eq_some_iff.mp isSetting
        exact absurd names (foreign field)
    unfold readEnvironment
    rw [List.filterMap_append, List.filterMap_append, List.filterMap_cons_none isNone]

/-- Some entries of an environment: two of options, in mixed case and one of them with a Kelvin sign, one
that is refused, and three that name no option. -/
def mixedEntries : List (String × String) :=
  [("MMTK_Threads", "7"), ("HOME", "/"), ("MMTK_REGION_BYTES", "0"),
    ("MMTK_SMALL_CHUN\u212a_words", "+9"), ("mmtk_threads", "8"), ("MMTK_NODES", "1")]

/-- The entries are read back to front as they are in order. -/
theorem mixedEntries_unordered : NamedOnce mixedEntries ∧
    ((default 4).readEnvironment mixedEntries.reverse).1 =
      { default 7 with smallChunkWords := 9 } := by
  have once : NamedOnce mixedEntries := List.Pairwise.imp differ_of_setting? (by decide +kernel)
  refine ⟨once, ?_⟩
  rw [((readEnvironment_unordered (default 4) once).1 _ (List.reverse_perm _)).1]
  decide +kernel

end Options

end CollectorMemory
