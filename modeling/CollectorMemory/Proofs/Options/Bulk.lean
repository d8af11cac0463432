import CollectorMemory.Options.Environment
import CollectorMemory.Proofs.Options.RoundTrip

/-!
# What settings in text do

A text consists of tokens with blanks between them. A token is accepted if it is the name of an
option, an equals sign and a text that reads as a value of the option's type which the option admits;
it then gives that option the value and leaves all others. Any other token leaves everything. A bulk
text does this token by token (`assignBulk_processes`), and no setting, wherever it comes from, makes
valid options invalid.
-/

namespace CollectorMemory

variable {options next after : Options} {field other : Field} {name text token blanks rest : List Char}
  {tokens : List (List Char)} {char : Char} {number : Nat} {accepted : Bool}

namespace Setting

/-- A text consists of tokens with blanks before, between and after them. -/
inductive Separated : List Char → List (List Char) → Prop where
  /-- A text without tokens. -/
  | blank {blanks : List Char} (gap : IsGap blanks) : Separated blanks []
  /-- A text with a first token, which ends at a blank or at the end of the text. -/
  | token {blanks token rest : List Char} {tokens : List (List Char)} (gap : IsGap blanks)
      (isWord : IsWord token) (ended : ∀ char ∈ rest.head?, isBlank char = true)
      (more : Separated rest tokens) : Separated (blanks ++ token ++ rest) (token :: tokens)

/-- A blank in front of a text is in front of its first token. -/
theorem Separated.cons_blank (separated : Separated text tokens) (blank : isBlank char = true) :
    Separated (char :: text) tokens := by
  cases separated with
  | blank gap => exact .blank (List.forall_mem_cons.mpr ⟨blank, gap⟩)
  | token gap isWord ended more =>
    exact @Separated.token (char :: _) _ _ _ (List.forall_mem_cons.mpr ⟨blank, gap⟩) isWord ended more

/-- The texts between blanks are the tokens of a text, where some characters of the first token have
been read already. -/
theorem separated_wordsFrom (solid : ∀ char ∈ name, isBlank char = false) :
    Separated (name.reverse ++ text) (wordsFrom text name) := by
  have isWord : ∀ {name : List Char}, name ≠ [] → (∀ char ∈ name, isBlank char = false) →
      IsWord name.reverse := fun nonempty solid =>
    ⟨by simpa using nonempty, fun char member => solid char (List.mem_reverse.mp member)⟩
  induction text generalizing name with
  | nil =>
    unfold wordsFrom
    split
    · next isEmpty =>
      rw [List.isEmpty_iff.mp isEmpty]
      exact .blank fun _ member => absurd member List.not_mem_nil
    · next filled =>
      have nonempty : name ≠ [] := fun isNil => filled (List.isEmpty_iff.mpr isNil)
      have nothing : IsGap [] := List.forall_mem_nil _
      refine @Separated.token [] _ _ _ nothing (isWord nonempty solid) ?_ (.blank nothing)
      rintro _ ⟨⟩
  | cons char text ih =>
    have later : Separated text (wordsFrom text []) := @ih [] (List.forall_mem_nil _)
    unfold wordsFrom
    split
    · next blank =>
      split
      · next isEmpty =>
        rw [List.isEmpty_iff.mp isEmpty]
        exact later.cons_blank blank
      · next filled =>
        have nonempty : name ≠ [] := fun isNil => filled (List.isEmpty_iff.mpr isNil)
        refine @Separated.token [] _ _ _ (List.forall_mem_nil _) (isWord nonempty solid) ?_
          (later.cons_blank blank)
        rintro _ ⟨⟩
        exact blank
    · next letter =>
      have longer := ih (List.forall_mem_cons.mpr ⟨Bool.eq_false_iff.mpr letter, solid⟩)
      rw [List.reverse_cons, List.append_assoc] at longer
      exact longer

/-- A text has no other tokens than the texts between its blanks. -/
theorem separated_iff : Separated text tokens ↔ tokens = words text := by
  constructor
  · intro separated
    induction separated with
    | @blank blanks gap =>
      have nothing := @wordsFrom_gap [] blanks gap
      rw [List.append_nil] at nothing
      exact nothing.symm
    | token gap isWord ended _ ih => rw [words_gap_word gap isWord ended, ih]
  · rintro rfl
    exact @separated_wordsFrom [] _ nofun

/-- A text has an equals sign with nothing but a name before it exactly if it is split there. -/
theorem parts?_eq_some_iff {value : List Char} :
    parts? text = some (name, value) ↔ '=' ∉ name ∧ text = name ++ '=' :: value := by
  constructor
  · intro split
    fun_induction parts? text generalizing name with
    | case1 => cases split
    | case2 => cases split; simp
    | case3 char rest differs ih =>
      obtain ⟨⟨first, last⟩, isSplit, same⟩ := Option.map_eq_some_iff.mp split
      obtain ⟨rfl, rfl⟩ := Prod.mk.inj same
      obtain ⟨noEquals, rfl⟩ := ih isSplit
      exact ⟨List.not_mem_cons_of_ne_of_not_mem (Ne.symm differs) noEquals, rfl⟩
  · rintro ⟨noEquals, rfl⟩
    exact parts?_append noEquals

/-- A text is a number in decimal: digits, with at most one plus sign before them, that stand for a
count. -/
def Denotes (text : List Char) (number : Nat) : Prop :=
  ∃ digits, (text = digits ∨ text = '+' :: digits) ∧ digits ≠ [] ∧
    (∀ char ∈ digits, char.isDigit = true) ∧ number = Nat.ofDigitChars 10 digits 0 ∧
    number < wordLimit

/-- Only digits have a value. -/
theorem digitsValue?_eq_some_iff {value : Nat} : digitsValue? text value = some number ↔
    (∀ char ∈ text, char.isDigit = true) ∧ number = Nat.ofDigitChars 10 text value := by
  constructor
  · intro isValue
    have digits : ∀ char ∈ text, char.isDigit = true := by
      induction text generalizing value with
      | nil => exact nofun
      | cons char text ih =>
        unfold digitsValue? at isValue
        split at isValue
        · next digit => exact List.forall_mem_cons.mpr ⟨digit, ih isValue⟩
        · cases isValue
    rw [digitsValue?_eq digits] at isValue
    exact ⟨digits, (Option.some.inj isValue).symm⟩
  · rintro ⟨digits, rfl⟩
    exact digitsValue?_eq digits value

/-- Exactly the counts in decimal are read. -/
theorem count?_eq_some_iff : count? text = some number ↔ Denotes text number := by
  have unsigned : ∀ digits : List Char,
      ((if digits.isEmpty then none
        else (digitsValue? digits 0).filter fun value => value < wordLimit) = some number) ↔
      digits ≠ [] ∧ (∀ char ∈ digits, char.isDigit = true) ∧
        number = Nat.ofDigitChars 10 digits 0 ∧ number < wordLimit := by
    intro digits
    rw [Option.ite_none_left_eq_some, Option.filter_eq_some_iff, digitsValue?_eq_some_iff,
      List.isEmpty_iff, decide_eq_true_eq, and_assoc]
  unfold count?
  rw [unsigned]
  split
  · next digits =>
    constructor
    · exact fun isNumber => ⟨digits, Or.inr rfl, isNumber⟩
    · rintro ⟨_, rfl | same, nonempty, isDigits, isNumber⟩
      · -- A plus sign is no digit.
        exact absurd (isDigits '+' List.mem_cons_self) (by decide)
      · rw [(List.cons.inj same).2]
        exact ⟨nonempty, isDigits, isNumber⟩
  · next noSign =>
    constructor
    · exact fun isNumber => ⟨text, Or.inl rfl, isNumber⟩
    · rintro ⟨digits, rfl | same, isNumber⟩
      · exact isNumber
      · exact absurd same (noSign digits)

/-- Exactly the two words of the flag are read. -/
theorem flag?_eq_some_iff {flag : Bool} :
    flag? (String.ofList text) = some flag ↔ text = (cond flag "true" "false").toList := by
  have spells : ∀ {word : String}, String.ofList text = word ↔ text = word.toList := by
    intro word
    rw [← String.toList_inj, String.toList_ofList]
  rw [← spells]
  unfold flag?
  cases flag <;> grind

end Setting

namespace Field

/-- The type of the values of an option. -/
def Value : Field → Type
  | count _ => Nat
  | audited => Bool

/-- A text reads as a value of an option. -/
def Reads : (field : Field) → List Char → field.Value → Prop
  | count _, text, number => Setting.Denotes text number
  | audited, text, flag => text = (cond flag "true" "false").toList

/-- An option admits a value; the flag admits both. -/
def Admits : (field : Field) → field.Value → Prop
  | count field, number => field.admits number = true
  | audited, _ => True

/-- A token is accepted as a setting that gives an option a value: before its first equals sign it
has the name of the option, and after it a text that reads as the value, which the option admits. -/
def Accepts (field : Field) (value : field.Value) (token : List Char) : Prop :=
  ∃ name text, token = name ++ '=' :: text ∧ '=' ∉ name ∧ name = field.name.toList ∧
    field.Reads text value ∧ field.Admits value

/-- An option that is found has the name. -/
theorem ofName?_eq_some_iff {name : String} : ofName? name = some field ↔ field.name = name := by
  constructor
  · intro found
    unfold ofName? at found
    have isNamed := List.find?_some found
    exact beq_iff_eq.mp isNamed
  · rintro rfl
    exact ofName?_name field

/-- A text reads as one value of an option at most. -/
theorem Reads.unique {left right : field.Value} (first : field.Reads text left)
    (second : field.Reads text right) : left = right := by
  cases field with
  | count field =>
    have isLeft := Setting.count?_eq_some_iff.mpr first
    exact Option.some.inj (isLeft.symm.trans (Setting.count?_eq_some_iff.mpr second))
  | audited =>
    have isLeft := Setting.flag?_eq_some_iff.mpr first
    exact Option.some.inj (isLeft.symm.trans (Setting.flag?_eq_some_iff.mpr second))

/-- A token is accepted for one option and one value of it at most. -/
theorem Accepts.unique {value : field.Value} {value' : other.Value}
    (first : field.Accepts value token) (second : other.Accepts value' token) :
    (⟨field, value⟩ : Sigma Value) = ⟨other, value'⟩ := by
  obtain ⟨name, text, isToken, noEquals, isName, reads, _⟩ := first
  obtain ⟨name', text', isToken', noEquals', isName', reads', _⟩ := second
  have parts := Setting.parts?_eq_some_iff.mpr ⟨noEquals, isToken⟩
  rw [Setting.parts?_eq_some_iff.mpr ⟨noEquals', isToken'⟩] at parts
  obtain ⟨rfl, rfl⟩ := Prod.mk.inj (Option.some.inj parts)
  have sameName : other.name = field.name := String.toList_inj.mp (isName'.symm.trans isName)
  have sameField := ofName?_name other
  rw [sameName, ofName?_name field] at sameField
  obtain rfl := Option.some.inj sameField
  rw [reads.unique reads']

end Field

namespace Options

/-- The value of an option. -/
def value (options : Options) : (field : Field) → field.Value
  | .count field => options.count field
  | .audited => options.audited

/-- After the change an option has a value, and all others have the values that they had. -/
structure Sets (field : Field) (value : field.Value) (options after : Options) : Prop where
  /-- The option has the value. -/
  value : after.value field = value
  /-- The other options stay. -/
  others : ∀ other, other ≠ field → after.value other = options.value other

/-- Options are determined by their values. -/
theorem eq_of_value {left right : Options} (same : ∀ field, left.value field = right.value field) :
    left = right :=
  ext_count (fun field => same (.count field)) (same .audited)

/-- What sets an option to a value is determined. -/
theorem Sets.unique {value : field.Value} (first : Sets field value options next)
    (second : Sets field value options after) : next = after := by
  apply eq_of_value
  intro other
  by_cases same : other = field
  · subst same
    exact first.value.trans second.value.symm
  · exact (first.others other same).trans (second.others other same).symm

/-- Replacing a count sets its option. -/
theorem sets_withCount (options : Options) (field : CountField) (number : Nat) :
    Sets (.count field) number options (options.withCount field number) where
  value := count_withCount_self options field number
  others other differs := by
    cases other with
    | audited => exact audited_withCount options field number
    | count other =>
      exact count_withCount_of_ne options field other number fun same => differs (by rw [same])

/-- Replacing the flag sets its option. -/
theorem sets_withAudited (options : Options) (flag : Bool) :
    Sets .audited flag options (options.withAudited flag) where
  value := audited_withAudited options flag
  others other differs := by
    cases other with
    | audited => exact absurd rfl differs
    | count other => exact count_withAudited options other flag

/-- An option that is set to a value which it admits leaves valid options valid. -/
theorem Sets.valid {value : field.Value} (sets : Sets field value options after)
    (admits : field.Admits value) (valid : options.Valid) : after.Valid := by
  intro other
  by_cases same : .count other = field
  · subst same
    rw [show after.count other = _ from sets.value]
    exact admits
  · rw [show after.count other = options.count other from sets.others (.count other) same]
    exact valid other

/-- A value that is set by name is taken over if there is an option of the name, and the value reads as
one that it admits. -/
theorem assign_of_reads {value : field.Value} {word : String} (reads : field.Reads word.toList value)
    (admits : field.Admits value) :
    ∃ after, options.assign field.name word = .ok after ∧ Sets field value options after := by
  unfold assign
  rw [Field.ofName?_name]
  cases field with
  | count field =>
    refine ⟨_, ?_, sets_withCount options field value⟩
    dsimp only
    rw [Setting.count?_eq_some_iff.mpr reads]
    exact if_pos admits
  | audited =>
    refine ⟨_, ?_, sets_withAudited options value⟩
    dsimp only
    rw [← @String.ofList_toList word, Setting.flag?_eq_some_iff.mpr reads]

/-- A value that is taken over is that of an option of the name, which reads as a value that it admits. -/
theorem exists_reads_of_assign {name word : String} (done : options.assign name word = .ok after) :
    ∃ (field : Field) (value : field.Value), field.name = name ∧ field.Reads word.toList value ∧
      field.Admits value ∧ Sets field value options after := by
  unfold assign at done
  split at done
  · cases done
  · next found =>
    split at done
    · cases done
    · next flag isFlag =>
      cases done
      rw [← @String.ofList_toList word] at isFlag
      exact ⟨.audited, flag, Field.ofName?_eq_some_iff.mp found, Setting.flag?_eq_some_iff.mp isFlag,
        trivial, sets_withAudited options flag⟩
  · next field found =>
    split at done
    · cases done
    · next number isCount =>
      split at done
      · next admits =>
        cases done
        exact ⟨.count field, number, Field.ofName?_eq_some_iff.mp found,
          Setting.count?_eq_some_iff.mp isCount, admits, sets_withCount options field number⟩
      · cases done

/-- A token that is accepted sets its option. -/
theorem assignSetting_of_accepts (options : Options) {value : field.Value}
    (accepts : field.Accepts value token) :
    ∃ after, options.assignSetting token = .ok after ∧ Sets field value options after := by
  obtain ⟨name, text, isToken, noEquals, rfl, reads, admits⟩ := accepts
  unfold assignSetting
  rw [Setting.parts?_eq_some_iff.mpr ⟨noEquals, isToken⟩]
  dsimp only
  rw [String.ofList_toList]
  exact assign_of_reads (by rw [String.toList_ofList]; exact reads) admits

/-- A token that is taken over is accepted. -/
theorem exists_accepts_of_assignSetting (done : options.assignSetting token = .ok after) :
    ∃ (field : Field) (value : field.Value), field.Accepts value token := by
  unfold assignSetting at done
  split at done
  · cases done
  · next name text isParts =>
    obtain ⟨noEquals, isToken⟩ := Setting.parts?_eq_some_iff.mp isParts
    obtain ⟨field, value, isName, reads, admits, _⟩ := exists_reads_of_assign done
    rw [String.toList_ofList] at reads
    exact ⟨field, value, name, text, isToken, noEquals, by rw [isName, String.toList_ofList], reads,
      admits⟩

/-- What tokens do to options, left to right, and whether all of them are accepted. -/
inductive Processes : Options → List (List Char) → Options → Bool → Prop where
  /-- There are no tokens left. -/
  | done {options : Options} : Processes options [] options true
  /-- A token that is accepted sets its option. -/
  | accepted {options next after : Options} {token : List Char} {tokens : List (List Char)}
      {all : Bool} {field : Field} {value : field.Value} (accepts : field.Accepts value token)
      (sets : Sets field value options next) (more : Processes next tokens after all) :
      Processes options (token :: tokens) after all
  /-- Any other token changes nothing. -/
  | refused {options after : Options} {token : List Char} {tokens : List (List Char)} {all : Bool}
      (refuses : ∀ (field : Field) (value : field.Value), ¬field.Accepts value token)
      (more : Processes options tokens after all) : Processes options (token :: tokens) after false

/-- Settings that are taken one after the other do what the tokens do, and none is refused exactly if
all of them are accepted. -/
theorem assignEach_processes (options : Options) (tokens : List (List Char)) :
    options.Processes tokens (assignEach assignSetting options tokens).1
      (assignEach assignSetting options tokens).2.isEmpty := by
  induction tokens generalizing options with
  | nil => exact .done
  | cons token tokens ih =>
    unfold assignEach
    cases outcome : options.assignSetting token with
    | ok next =>
      obtain ⟨field, value, accepts⟩ := exists_accepts_of_assignSetting outcome
      obtain ⟨_, isNext, sets⟩ := assignSetting_of_accepts options accepts
      cases outcome.symm.trans isNext
      exact .accepted accepts sets (ih next)
    | error refusal =>
      refine .refused (fun field value accepts => ?_) (ih options)
      obtain ⟨_, isNext, _⟩ := assignSetting_of_accepts options accepts
      cases outcome.symm.trans isNext

/-- Tokens do one thing only. -/
theorem Processes.unique {after' : Options} {all all' : Bool}
    (first : options.Processes tokens after all) (second : options.Processes tokens after' all') :
    after = after' ∧ all = all' := by
  induction first generalizing after' all' with
  | done =>
    cases second
    exact ⟨rfl, rfl⟩
  | accepted accepts sets _ ih =>
    cases second with
    | accepted accepts' sets' more =>
      cases accepts.unique accepts'
      obtain rfl := sets.unique sets'
      exact ih more
    | refused refuses _ => exact absurd accepts (refuses _ _)
  | refused refuses _ ih =>
    cases second with
    | accepted accepts' _ _ => exact absurd accepts' (refuses _ _)
    | refused _ more => exact ⟨(ih more).1, rfl⟩

/-- Changes that keep options valid one by one keep them valid together. -/
theorem valid_assignEach {α : Type} {change : Options → α → Except Refusal Options} {items : List α}
    (keeps : ∀ options item after, change options item = .ok after → options.Valid → after.Valid)
    (valid : options.Valid) : (assignEach change options items).1.Valid := by
  induction items generalizing options with
  | nil => exact valid
  | cons item items ih =>
    unfold assignEach
    cases outcome : change options item with
    | ok after => exact ih (keeps options item after outcome valid)
    | error refusal => exact ih valid

/-- A value that is taken over leaves valid options valid. -/
theorem valid_assign {name word : String} (done : options.assign name word = .ok after)
    (valid : options.Valid) : after.Valid := by
  obtain ⟨_, _, _, _, admits, sets⟩ := exists_reads_of_assign done
  exact sets.valid admits valid

/-- A setting that is taken over leaves valid options valid. -/
theorem valid_assignSetting (done : options.assignSetting token = .ok after)
    (valid : options.Valid) : after.Valid := by
  unfold assignSetting at done
  split at done
  · cases done
  · exact valid_assign done valid

/-- A way to change options. -/
inductive Call where
  /-- Set one option by name. -/
  | assign (name value : String)
  /-- Take the settings of a text. -/
  | bulk (text : String)
  /-- Read the environment. -/
  | environment (entries : List (String × String))

/-- The options after a call; a refused value leaves them as they are. -/
def call (options : Options) : Call → Options
  | .assign name value => (options.assign name value).toOption.getD options
  | .bulk text => (options.assignBulk text).1
  | .environment entries => (options.readEnvironment entries).1

/-- A call leaves valid options valid. -/
theorem valid_call (valid : options.Valid) (request : Call) : (options.call request).Valid := by
  cases request with
  | assign name word =>
    change ((options.assign name word).toOption.getD options).Valid
    cases outcome : options.assign name word with
    | ok after => exact valid_assign outcome valid
    | error refusal => exact valid
  | bulk text => exact valid_assignEach (fun _ _ _ => valid_assignSetting) valid
  | environment entries => exact valid_assignEach (fun _ _ _ => valid_assign) valid

/-- A bulk text does to the options exactly what its tokens do, left to right, and is taken over without
a refusal exactly if all of them are accepted; and no calls, one after the other, make valid options
invalid. -/
theorem assignBulk_processes :
    (∀ (options : Options) (text : String), ∃ tokens,
      (∀ other, Setting.Separated text.toList other ↔ other = tokens) ∧
      ∀ after all, options.Processes tokens after all ↔
        (options.assignBulk text).1 = after ∧ ((options.assignBulk text).2 = [] ↔ all = true)) ∧
    ∀ (options : Options) (calls : List Call), options.Valid → (calls.foldl call options).Valid := by
  constructor
  · intro options text
    refine ⟨Setting.words text.toList, fun _ => Setting.separated_iff, fun after all => ?_⟩
    have processes := assignEach_processes options (Setting.words text.toList)
    change options.Processes _ (options.assignBulk text).1 (options.assignBulk text).2.isEmpty
      at processes
    rw [← List.isEmpty_iff, ← Bool.eq_iff_iff]
    constructor
    · exact processes.unique
    · rintro ⟨rfl, rfl⟩
      exact processes
  · intro options calls valid
    induction calls generalizing options with
    | nil => exact valid
    | cons request calls ih => exact ih _ (valid_call valid request)

/-- Bad tokens between good ones, and entries of the environment that are refused or foreign, leave the
default options valid. -/
theorem call_valid_mixed : (default 4).Valid ∧
    [Call.bulk "threads=0 region_bytes=+4096 THREADS=2 node\tverify_metaspace=False",
      .environment [("MMTK_THREADS", "7"), ("MMTK_REGION_BYTES", "0"), ("HOME", "/")],
      .assign "max_metaspace_words" "18446744073709551616"].foldl call (default 4) =
        { default 7 with regionBytes := 4096 } ∧
    { default 7 with regionBytes := 4096 }.Valid := by
  have valid : (default 4).Valid := fun field => by cases field <;> decide
  have ends : [Call.bulk "threads=0 region_bytes=+4096 THREADS=2 node\tverify_metaspace=False",
      .environment [("MMTK_THREADS", "7"), ("MMTK_REGION_BYTES", "0"), ("HOME", "/")],
      .assign "max_metaspace_words" "18446744073709551616"].foldl call (default 4) =
        { default 7 with regionBytes := 4096 } := by decide +kernel
  refine ⟨valid, ends, ?_⟩
  rw [← ends]
  exact assignBulk_processes.2 _ _ valid

end Options

end CollectorMemory
