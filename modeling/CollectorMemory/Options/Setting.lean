import CollectorMemory.Event
import CollectorMemory.Options.Basic

/-!
# Options from text

A setting is a text name=value, split at the first equals sign. It is taken over as a whole or
refused as a whole: refused settings leave the options as they are, and every refusal has a reason.
Bulk text holds settings between blanks.
-/

namespace CollectorMemory

namespace Setting

/-- The value of decimal digits, most significant first, after the digits read so far. -/
def digitsValue? : List Char → Nat → Option Nat
  | [], value => some value
  | digit :: rest, value =>
    if digit.isDigit then digitsValue? rest (value * 10 + (digit.toNat - '0'.toNat)) else none

/-- A count written as decimal digits, with at most one plus sign before them. -/
def count? (text : List Char) : Option Nat :=
  let digits := match text with
    | '+' :: rest => rest
    | _ => text
  if digits.isEmpty then none
  else (digitsValue? digits 0).filter fun value => value < wordLimit

/-- A flag written as a word. -/
def flag? (text : String) : Option Bool :=
  if text = "true" then some true else if text = "false" then some false else none

/-- The characters that stand between settings. -/
def isBlank (char : Char) : Bool :=
  char == ' ' || char == '\t' || char == '\n' || char == '\x0c' || char == '\r'

/-- The texts between blanks, empty ones left out; `word` holds the characters of the current one,
last first. -/
def wordsFrom : List Char → List Char → List (List Char)
  | [], word => if word.isEmpty then [] else [word.reverse]
  | char :: rest, word =>
    if isBlank char then
      if word.isEmpty then wordsFrom rest [] else word.reverse :: wordsFrom rest []
    else wordsFrom rest (char :: word)

/-- The texts between blanks, empty ones left out. -/
def words (text : List Char) : List (List Char) := wordsFrom text []

/-- The parts of a text before and after its first equals sign, if it has one. -/
def parts? : List Char → Option (List Char × List Char)
  | [] => none
  | '=' :: value => some ([], value)
  | char :: rest => (parts? rest).map fun (name, value) => (char :: name, value)

end Setting

namespace Options

/-- The options after one value is set by name, or the reason for leaving them as they are. -/
def assign (options : Options) (name value : String) : Except Refusal Options :=
  match Field.ofName? name with
  | none => .error (.unknownName name)
  | some .audited =>
    match Setting.flag? value with
    | none => .error (.unreadable name value)
    | some flag => .ok (options.withAudited flag)
  | some (.count field) =>
    match Setting.count? value.toList with
    | none => .error (.unreadable name value)
    | some number =>
      if field.admits number then .ok (options.withCount field number)
      else .error (.notAdmitted name number)

/-- The options after one setting of the form name=value. -/
def assignSetting (options : Options) (setting : List Char) : Except Refusal Options :=
  match Setting.parts? setting with
  | none => .error (.malformed (String.ofList setting))
  | some (name, value) => options.assign (String.ofList name) (String.ofList value)

/-- The options after a list of changes, left to right, with the reasons of the refused ones. -/
def assignEach {α : Type} (change : Options → α → Except Refusal Options) :
    Options → List α → Options × List Refusal
  | options, [] => (options, [])
  | options, item :: rest =>
    match change options item with
    | .ok changed => assignEach change changed rest
    | .error refusal =>
      let (changed, refusals) := assignEach change options rest
      (changed, refusal :: refusals)

/-- The options after all settings of a text, with the reasons of the refused ones. -/
def assignBulk (options : Options) (text : String) : Options × List Refusal :=
  assignEach assignSetting options (Setting.words text.toList)

end Options

end CollectorMemory
