import CollectorMemory.Options.Setting
import Mathlib.Data.List.Basic

/-!
# Options written as text

Every option of some options is written as a setting name=value, with counts in decimal and the flag
as a word. Read back, a setting gives its option the value that was written and leaves the others as
they are (`assignSetting_setting`). Blanks only separate settings (`Setting.words_layout`), so a text
with a setting for each option, in any order and with any blanks between them, replaces whatever the
options were before.
-/

namespace CollectorMemory

variable {options base : Options} {field : Field} {fields : List Field} {word name value : List Char}
  {text rest blanks : List Char} {number : Nat}

namespace Setting

/-- Only blanks. -/
def IsGap (blanks : List Char) : Prop := ∀ char ∈ blanks, isBlank char = true

instance : Decidable (IsGap blanks) := decidable_of_iff (blanks.all isBlank = true) List.all_eq_true

/-- Some characters, none of them blank. -/
def IsWord (word : List Char) : Prop := word ≠ [] ∧ ∀ char ∈ word, isBlank char = false

/-- Words with blanks before each of them. -/
def layout (parts : List (List Char × List Char)) : List Char :=
  parts.flatMap fun part => part.1 ++ part.2

/-- Blanks before a word are left out. -/
theorem wordsFrom_gap (gap : IsGap blanks) : wordsFrom (blanks ++ rest) [] = wordsFrom rest [] := by
  induction blanks with
  | nil => rfl
  | cons char blanks ih =>
    rw [List.cons_append, wordsFrom, if_pos (gap char List.mem_cons_self)]
    exact ih fun other member => gap other (List.mem_cons_of_mem char member)

/-- Characters that are not blank belong to the current word. -/
theorem wordsFrom_word (solid : ∀ char ∈ word, isBlank char = false) (current : List Char) :
    wordsFrom (word ++ rest) current = wordsFrom rest (word.reverse ++ current) := by
  induction word generalizing current with
  | nil => rfl
  | cons char word ih =>
    rw [List.cons_append, wordsFrom, if_neg (by
      rw [solid char List.mem_cons_self]
      exact Bool.false_ne_true)]
    rw [ih (fun other member => solid other (List.mem_cons_of_mem char member)),
      List.reverse_cons, List.append_assoc]
    rfl

/-- A blank, or the end of the text, ends the current word. -/
theorem wordsFrom_end (ended : ∀ char ∈ rest.head?, isBlank char = true) (word : List Char)
    (nonempty : word ≠ []) : wordsFrom rest word = word.reverse :: words rest := by
  have isFilled : ¬word.isEmpty := by
    rw [List.isEmpty_iff]
    exact nonempty
  cases rest with
  | nil =>
    rw [wordsFrom, if_neg isFilled]
    rfl
  | cons char rest =>
    have isBlank' := ended char rfl
    unfold words
    rw [wordsFrom, if_pos isBlank', if_neg isFilled, wordsFrom, if_pos isBlank']
    rfl

/-- The first word of a text. -/
theorem words_gap_word (gap : IsGap blanks) (isWord : IsWord word)
    (ended : ∀ char ∈ rest.head?, isBlank char = true) :
    words (blanks ++ word ++ rest) = word :: words rest := by
  unfold words
  rw [List.append_assoc, wordsFrom_gap gap, wordsFrom_word isWord.2, List.append_nil,
    wordsFrom_end ended _ (by simpa using isWord.1), List.reverse_reverse]
  rfl

/-- The words of a text are those that it was laid out from, if there are blanks between them. -/
theorem words_layout {parts : List (List Char × List Char)} {trailing : List Char}
    (gaps : ∀ part ∈ parts, IsGap part.1) (solid : ∀ part ∈ parts, IsWord part.2)
    (apart : ∀ part ∈ parts.tail, part.1 ≠ []) (trailingGap : IsGap trailing) :
    words (layout parts ++ trailing) = parts.map Prod.snd := by
  induction parts with
  | nil =>
    have nothing := @wordsFrom_gap [] trailing trailingGap
    rw [List.append_nil] at nothing
    exact nothing
  | cons part parts ih =>
    obtain ⟨gap, gaps⟩ := List.forall_mem_cons.mp gaps
    obtain ⟨isWord, solid⟩ := List.forall_mem_cons.mp solid
    have ended : ∀ char ∈ (layout parts ++ trailing).head?, isBlank char = true := by
      cases parts with
      | nil => exact fun char first => trailingGap char (List.mem_of_mem_head? first)
      | cons next parts =>
        obtain ⟨first, blanks, isGap⟩ :=
          List.exists_cons_of_ne_nil (apart next List.mem_cons_self)
        have blank := gaps next List.mem_cons_self first (by
          rw [isGap]
          exact List.mem_cons_self)
        intro char isFirst
        unfold layout at isFirst
        rw [List.flatMap_cons, isGap] at isFirst
        obtain rfl := Option.some.inj isFirst
        exact blank
    have rest := ih gaps solid fun other member => apart other (List.mem_of_mem_tail member)
    unfold layout at rest ended ⊢
    rw [List.flatMap_cons, List.append_assoc, words_gap_word gap isWord ended, rest, List.map_cons]

/-- A text is split at its first equals sign. -/
theorem parts?_append (noEquals : '=' ∉ name) : parts? (name ++ '=' :: value) = some (name, value) := by
  induction name with
  | nil => rfl
  | cons char name ih =>
    have differs : char ≠ '=' := fun same => noEquals (by
      rw [same]
      exact List.mem_cons_self)
    rw [List.cons_append, parts?, ih fun member => noEquals (List.mem_cons_of_mem char member)]
    · rfl
    · exact differs

/-- Digits are not blank. -/
theorem isBlank_of_isDigit {char : Char} (digit : char.isDigit = true) : isBlank char = false := by
  cases blank : isBlank char with
  | false => rfl
  | true =>
    simp only [isBlank, Bool.or_eq_true, beq_iff_eq] at blank
    rcases blank with (((rfl | rfl) | rfl) | rfl) | rfl <;> exact absurd digit (by decide)

/-- Digits are read as the number that they stand for. -/
theorem digitsValue?_eq (digits : ∀ char ∈ text, char.isDigit = true) (value : Nat) :
    digitsValue? text value = some (Nat.ofDigitChars 10 text value) := by
  induction text generalizing value with
  | nil => rfl
  | cons digit text ih =>
    rw [digitsValue?, if_pos (digits digit List.mem_cons_self), Nat.ofDigitChars_cons,
      ih fun other member => digits other (List.mem_cons_of_mem digit member)]
    rw [Nat.mul_comm]

/-- A count that is written in decimal is read back. -/
theorem count?_repr (short : number < wordLimit) : count? number.repr.toList = some number := by
  have digits : ∀ char ∈ number.repr.toList, char.isDigit = true := by
    rw [Nat.toList_repr]
    exact fun char => Nat.isDigit_of_mem_toDigits (by decide) (by decide)
  have nonempty : number.repr.toList ≠ [] := by
    rw [Nat.toList_repr]
    exact Nat.toDigits_ne_nil
  obtain ⟨first, more, isText⟩ := List.exists_cons_of_ne_nil nonempty
  have noSign : first ≠ '+' := by
    rintro rfl
    exact absurd (digits '+' (by rw [isText]; exact List.mem_cons_self)) (by decide)
  have unsigned : count? number.repr.toList = if number.repr.toList.isEmpty then none else
      (digitsValue? number.repr.toList 0).filter fun value => value < wordLimit := by
    unfold count?
    split
    · next same => exact absurd (List.cons.inj (isText.symm.trans same)).1 noSign
    · rfl
  rw [unsigned, if_neg (by rw [List.isEmpty_iff]; exact nonempty), digitsValue?_eq digits,
    Nat.toList_repr, Nat.ofDigitChars_ten_toDigits]
  exact Option.filter_some_pos (decide_eq_true short)

/-- A flag that is written as a word is read back. -/
theorem flag?_toString (flag : Bool) : flag? (toString flag) = some flag := by
  cases flag <;> rfl

end Setting

/-- Options are found by their names. -/
theorem Field.ofName?_name (field : Field) : ofName? field.name = some field := by
  cases field with
  | audited => rfl
  | count field => cases field <;> rfl

/-- Names hold neither blanks nor equals signs. -/
theorem Field.solid_name (field : Field) :
    ∀ char ∈ field.name.toList, Setting.isBlank char = false ∧ char ≠ '=' := by
  have solid : (field.name.toList.all fun char => !Setting.isBlank char && char != '=') = true := by
    cases field with
    | audited => rfl
    | count field => cases field <;> rfl
  intro char member
  simpa using List.all_eq_true.mp solid char member

namespace Options

/-- The text of the value of an option. -/
def valueText (options : Options) : Field → String
  | .count field => (options.count field).repr
  | .audited => toString options.audited

/-- The setting that gives an option its value. -/
def setting (options : Options) (field : Field) : List Char :=
  field.name.toList ++ '=' :: (options.valueText field).toList

/-- The settings of some options, with blanks before each of them and after all of them. -/
def written (options : Options) (parts : List (List Char × Field)) (trailing : List Char) : String :=
  String.ofList
    (Setting.layout (parts.map fun part => (part.1, options.setting part.2)) ++ trailing)

example : (default 3).written [([], .count .threads), ([' ', ' '], .audited)] ['\n'] =
    "threads=3  verify_metaspace=true\n" := by rfl

/-- The options with the value of one option taken over from others. -/
def takeOver (options base : Options) : Field → Options
  | .count field => base.withCount field (options.count field)
  | .audited => base.withAudited options.audited

/-- An option has the same value in both. -/
def Agrees (options base : Options) : Field → Prop
  | .count field => base.count field = options.count field
  | .audited => base.audited = options.audited

/-- An option that is taken over agrees. -/
theorem agrees_takeOver : options.Agrees (options.takeOver base field) field := by
  cases field with
  | audited => exact audited_withAudited base _
  | count field => exact count_withCount_self base field _

/-- Taking over an option leaves those that agree. -/
theorem Agrees.takeOver {other : Field} (agrees : options.Agrees base other) :
    options.Agrees (options.takeOver base field) other := by
  by_cases same : other = field
  · rw [same]
    exact agrees_takeOver
  · cases other with
    | audited =>
      cases field with
      | audited => exact absurd rfl same
      | count field => exact (audited_withCount base field _).trans agrees
    | count other =>
      cases field with
      | audited => exact (count_withAudited base other _).trans agrees
      | count field =>
        have differs : other ≠ field := fun isField => same (congrArg Field.count isField)
        exact (count_withCount_of_ne base field other _ differs).trans agrees

/-- After some options were taken over, these agree. -/
theorem agrees_foldl (known : field ∈ fields ∨ options.Agrees base field) :
    options.Agrees (fields.foldl options.takeOver base) field := by
  induction fields generalizing base with
  | nil => exact known.resolve_left List.not_mem_nil
  | cons first fields ih =>
    apply ih
    rcases known with member | agrees
    · rcases List.mem_cons.mp member with rfl | later
      · exact Or.inr agrees_takeOver
      · exact Or.inl later
    · exact Or.inr agrees.takeOver

/-- Options that agree everywhere are the same. -/
theorem eq_of_agrees (agrees : ∀ field, options.Agrees base field) : base = options :=
  ext_count (fun field => agrees (.count field)) (agrees .audited)

/-- The text of a value holds no blanks. -/
theorem solid_valueText : ∀ char ∈ (options.valueText field).toList, Setting.isBlank char = false := by
  cases field with
  | audited =>
    have solid : ((toString options.audited).toList.all fun char => !Setting.isBlank char) = true := by
      cases options.audited <;> rfl
    intro char member
    simpa using List.all_eq_true.mp solid char member
  | count field =>
    intro char member
    unfold valueText at member
    rw [Nat.toList_repr] at member
    exact Setting.isBlank_of_isDigit
      (Nat.isDigit_of_mem_toDigits (by decide) (by decide) member)

/-- A setting is a word. -/
theorem isWord_setting : Setting.IsWord (options.setting field) := by
  refine ⟨List.append_ne_nil_of_right_ne_nil _ (List.cons_ne_nil _ _), fun char member => ?_⟩
  rcases List.mem_append.mp member with inName | inValue
  · exact (Field.solid_name field char inName).1
  · rcases List.mem_cons.mp inValue with rfl | inValue
    · rfl
    · exact solid_valueText char inValue

/-- A setting that is read gives its option the value that was written. -/
theorem assignSetting_setting (valid : options.Valid)
    (short : ∀ field, options.count field < wordLimit) :
    base.assignSetting (options.setting field) = .ok (options.takeOver base field) := by
  have noEquals : '=' ∉ field.name.toList := fun member => (Field.solid_name field _ member).2 rfl
  unfold assignSetting setting
  rw [Setting.parts?_append noEquals]
  dsimp only
  unfold assign
  rw [String.ofList_toList, String.ofList_toList, Field.ofName?_name]
  cases field with
  | audited =>
    unfold valueText
    dsimp only
    rw [Setting.flag?_toString]
    rfl
  | count field =>
    unfold valueText
    dsimp only
    rw [Setting.count?_repr (short field)]
    exact if_pos (valid field)

/-- Settings that are read one after the other are all taken over, and none is refused. -/
theorem assignEach_setting (valid : options.Valid)
    (short : ∀ field, options.count field < wordLimit) :
    assignEach assignSetting base (fields.map options.setting) =
      (fields.foldl options.takeOver base, []) := by
  induction fields generalizing base with
  | nil => rfl
  | cons field fields ih =>
    rw [List.map_cons, assignEach, assignSetting_setting valid short]
    exact ih

/-- A text with a setting for every option, in any order and with blanks between them, is taken over
as a whole: whatever the options were before, they are those that were written. -/
theorem assignBulk_written {parts : List (List Char × Field)} {trailing : List Char}
    (valid : options.Valid) (short : ∀ field, options.count field < wordLimit)
    (complete : ∀ field, field ∈ parts.map Prod.snd) (gaps : ∀ part ∈ parts, Setting.IsGap part.1)
    (apart : ∀ part ∈ parts.tail, part.1 ≠ []) (trailingGap : Setting.IsGap trailing) :
    base.assignBulk (options.written parts trailing) = (options, []) := by
  have words : Setting.words (options.written parts trailing).toList =
      (parts.map Prod.snd).map options.setting := by
    unfold written
    rw [String.toList_ofList, Setting.words_layout _ _ _ trailingGap, List.map_map, List.map_map]
    · rfl
    · intro part member
      obtain ⟨before, isBefore, rfl⟩ := List.mem_map.mp member
      exact gaps before isBefore
    · intro part member
      obtain ⟨before, _, rfl⟩ := List.mem_map.mp member
      exact isWord_setting
    · intro part member
      rw [← List.map_tail] at member
      obtain ⟨before, isBefore, rfl⟩ := List.mem_map.mp member
      exact apart before isBefore
  unfold assignBulk
  rw [words, assignEach_setting valid short]
  exact congrArg (·, []) (eq_of_agrees fun field => agrees_foldl (Or.inl (complete field)))

/-- Options far from the defaults, written in another order than that of the list. -/
theorem assignBulk_written_reversed :
    (default 4).assignBulk ({ default 1 with audited := false, regionBytes := wordLimit - 1 }.written
      (Field.all.reverse.map fun field => ([' ', '\t'], field)) ['\n']) =
    ({ default 1 with audited := false, regionBytes := wordLimit - 1 }, []) := by
  refine assignBulk_written (fun field => by cases field <;> decide)
    (fun field => by cases field <;> decide) ?_ ?_ ?_ (by decide)
  · intro field
    rw [List.map_map, List.mem_map]
    exact ⟨field, List.mem_reverse.mpr (Field.mem_all field), rfl⟩
  · intro part member
    obtain ⟨field, _, rfl⟩ := List.mem_map.mp member
    exact (by decide : Setting.IsGap [' ', '\t'])
  · intro part member
    obtain ⟨field, _, rfl⟩ := List.mem_map.mp (List.mem_of_mem_tail member)
    exact List.cons_ne_nil _ _

end Options

end CollectorMemory
