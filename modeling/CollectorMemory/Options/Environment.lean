import CollectorMemory.Options.Setting

/-!
# Options from the environment

An environment is a list of names with values. An entry is a setting if its name is
`Environment.mark` followed by the name of an option, in any letter case; all other entries are
passed over.
-/

namespace CollectorMemory

namespace Environment

/-- What the names of entries that hold settings begin with. -/
def mark : String := "MMTK_"

/-- What a text has after a mark, if it begins with it. -/
def after? : List Char → List Char → Option (List Char)
  | [], text => some text
  | _ :: _, [] => none
  | expected :: mark, char :: text => if char = expected then after? mark text else none

/-- The lower-case form of a letter of an option's name. The letters whose lower-case form is an
ASCII character are the ASCII capitals and the Kelvin sign; all others stand for themselves, and
no option's name holds one. -/
def lowered (char : Char) : Char := if char = '\u212a' then 'k' else char.toLower

/-- The setting that an entry stands for, if it is one: the name of an option and a value. -/
def setting? (entry : String × String) : Option (String × String) :=
  match after? mark.toList entry.1.toList with
  | none => none
  | some rest =>
    let name := String.ofList (rest.map lowered)
    if (Field.ofName? name).isSome then some (name, entry.2) else none

/-- The environment after a name is given a value: the value of a name that is there already is
replaced in place, a new name comes last. -/
def set (environment : List (String × String)) (name value : String) : List (String × String) :=
  if environment.any (·.1 == name) then
    environment.map fun entry => if entry.1 == name then (name, value) else entry
  else environment ++ [(name, value)]

/-- The environment after assignments in order. -/
def ofAssignments (assignments : List (String × String)) : List (String × String) :=
  assignments.foldl (fun environment (name, value) => set environment name value) []

end Environment

/-- The options after the environment is read, entry by entry, with the reasons of the refused
settings. -/
def Options.readEnvironment (options : Options) (environment : List (String × String)) :
    Options × List Refusal :=
  assignEach (fun current (name, value) => current.assign name value) options
    (environment.filterMap Environment.setting?)

end CollectorMemory
