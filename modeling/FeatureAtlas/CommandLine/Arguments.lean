import FeatureAtlas.Export.Format
import FeatureAtlas.Model.FailurePolicy
import FeatureAtlas.Store.Identifier

/-!
The arguments of the command line: commands within commands, each with its options. An option takes
one value, attached to it or as the next argument, and may be given once at each command.
-/

namespace FeatureAtlas

inductive StoreCommand where
  | save (input : String) (label : Option String)
  | list
  | show (id : String)
  | delete (id : String)
deriving DecidableEq, Repr

inductive Command where
  | build (input : String) (format : Option ExportFormat) (output : Option String)
      (failOn : Option FailurePolicy)
  | scan (input : String)
  | store (path : Option String) (command : StoreCommand)
deriving DecidableEq, Repr

structure Invocation where
  settingsPath : Option String
  command : Command
deriving DecidableEq, Repr

inductive UsageError where
  | unknownOption (argument : String)
  | missingValue (option : String)
  | repeatedOption (option : String)
  | invalidValue (option value : String)
  | missingOption (option : String)
  | missingCommand
  | unknownCommand (argument : String)
  | missingArgument (name : String)
  | unexpectedArgument (argument : String)
deriving DecidableEq, Repr

def UsageError.message : UsageError → String
  | .unknownOption argument => "unexpected argument '" ++ argument ++ "'"
  | .missingValue option => "a value is required for '--" ++ option ++ "'"
  | .repeatedOption option => "'--" ++ option ++ "' cannot be used multiple times"
  | .invalidValue option value => "invalid value '" ++ value ++ "' for '" ++ option ++ "'"
  | .missingOption option => "'--" ++ option ++ "' was not provided"
  | .missingCommand => "a command is required"
  | .unknownCommand argument => "unrecognized command '" ++ argument ++ "'"
  | .missingArgument name => "'" ++ name ++ "' was not provided"
  | .unexpectedArgument argument => "unexpected argument '" ++ argument ++ "'"

structure OptionSpec where
  name : String
  letter : Option Char
  accepts : String → Bool

namespace OptionSpec

def path (name : String) (letter : Option Char) : OptionSpec :=
  { name, letter, accepts := fun value => value != "" }

def text (name : String) (letter : Option Char) : OptionSpec :=
  { name, letter, accepts := fun _ => true }

def choice (name : String) (letter : Option Char) (names : List String) : OptionSpec :=
  { name, letter, accepts := names.contains }

end OptionSpec

abbrev Given := List (String × String)

namespace Arguments

def option? (specs : List OptionSpec) (argument : List Char) :
    Except UsageError (Option (OptionSpec × Option String)) :=
  let unknown := UsageError.unknownOption (String.ofList argument)
  match argument with
  | '-' :: '-' :: long =>
      let name := String.ofList (long.takeWhile fun character => character != '=')
      match specs.find? fun spec => spec.name == name, long.dropWhile (· != '=') with
      | none, _ => .error unknown
      | some spec, '=' :: value => .ok (some (spec, some (String.ofList value)))
      | some spec, _ => .ok (some (spec, none))
  | '-' :: letter :: attached =>
      match specs.find? fun spec => spec.letter == some letter, attached with
      | none, _ => .error unknown
      | some spec, [] => .ok (some (spec, none))
      | some spec, '=' :: value => .ok (some (spec, some (String.ofList value)))
      | some spec, value => .ok (some (spec, some (String.ofList value)))
  | _ => .ok none

def isValue (argument : String) : Bool :=
  match argument.toList with
  | '-' :: _ :: _ => false
  | _ => true

def give (given : Given) (spec : OptionSpec) (value : String) : Except UsageError Given :=
  if !spec.accepts value then .error (.invalidValue spec.name value)
  else if (given.lookup spec.name).isSome then .error (.repeatedOption spec.name)
  else .ok ((spec.name, value) :: given)

def afterDoubleHyphen (last : Bool) (given : Given) :
    List String → Except UsageError (Given × List String)
  | argument :: rest =>
      if last then .ok (given, argument :: rest) else .error (.unexpectedArgument argument)
  | [] => .ok (given, [])

/-- The options at a command, and its other arguments. At the `last` command options may stand
behind other arguments; elsewhere the first other argument is the next command, to which everything
behind it belongs. -/
def take (specs : List OptionSpec) (last : Bool) (given : Given) :
    List String → Except UsageError (Given × List String)
  | [] => .ok (given, [])
  | "--" :: rest => afterDoubleHyphen last given rest
  | argument :: rest => do
      match ← option? specs argument.toList with
      | some (spec, some value) => take specs last (← give given spec value) rest
      | some (spec, none) =>
          match rest with
          | [] => .error (.missingValue spec.name)
          | value :: rest =>
              if isValue value then take specs last (← give given spec value) rest
              else .error (.missingValue spec.name)
      | none =>
          if last then
            let (given, others) ← take specs last given rest
            return (given, argument :: others)
          else return (given, argument :: rest)

def takeCommand (specs : List OptionSpec) (arguments : List String) :
    Except UsageError (Given × String × List String) := do
  match ← take specs false [] arguments with
  | (given, command :: rest) => return (given, command, rest)
  | (_, []) => .error .missingCommand

def takeLast (specs : List OptionSpec) (arguments : List String) :
    Except UsageError (Given × List String) :=
  take specs true [] arguments

def innermost (name : String) (commands : List Given) : Option String :=
  commands.findSome? fun given => given.lookup name

def required (given : Given) (name : String) : Except UsageError String :=
  match given.lookup name with
  | some value => .ok value
  | none => .error (.missingOption name)

def noOthers : List String → Except UsageError Unit
  | [] => .ok ()
  | argument :: _ => .error (.unexpectedArgument argument)

def settings : OptionSpec := .path "config" none

def database : OptionSpec := .path "db" none

def input : OptionSpec := .path "input" (some 'i')

def buildOptions : List OptionSpec :=
  [input, .choice "format" (some 'f') (ExportFormat.all.map ExportFormat.name),
    .path "output" (some 'o'),
    .choice "fail-on" none (FailurePolicy.all.map FailurePolicy.name), settings]

def identifier : List String → Except UsageError String
  | [] => .error (.missingArgument "ID")
  | [text] =>
      match Identifier.ofText? text with
      | some id => .ok id
      | none => .error (.invalidValue "ID" text)
  | _ :: argument :: _ => .error (.unexpectedArgument argument)

def storeCommand (name : String) (arguments : List String) :
    Except UsageError (Given × StoreCommand) := do
  let common := [database, settings]
  match name with
  | "save" => do
      let (given, others) ← takeLast ([input, .text "label" (some 'l')] ++ common) arguments
      noOthers others
      return (given, .save (← required given "input") (given.lookup "label"))
  | "list" => do
      let (given, others) ← takeLast common arguments
      noOthers others
      return (given, .list)
  | "show" => do
      let (given, others) ← takeLast common arguments
      return (given, .show (← identifier others))
  | "delete" => do
      let (given, others) ← takeLast common arguments
      return (given, .delete (← identifier others))
  | other => .error (.unknownCommand other)

end Arguments

namespace Invocation

open Arguments

def ofArguments (arguments : List String) : Except UsageError Invocation := do
  let (outer, name, arguments) ← takeCommand [settings] arguments
  match name with
  | "build" => do
      let (given, others) ← takeLast buildOptions arguments
      noOthers others
      let command : Command := .build (← required given "input")
        ((given.lookup "format").bind fun name => ExportFormat.named.lookup name)
        (given.lookup "output")
        ((given.lookup "fail-on").bind fun name => FailurePolicy.named.lookup name)
      return { settingsPath := innermost "config" [given, outer], command }
  | "scan" => do
      let (given, others) ← takeLast [input, settings] arguments
      noOthers others
      return { settingsPath := innermost "config" [given, outer]
               command := .scan (← required given "input") }
  | "store" => do
      let (middle, name, arguments) ← takeCommand [database, settings] arguments
      let (inner, command) ← storeCommand name arguments
      return { settingsPath := innermost "config" [inner, middle, outer]
               command := .store (innermost "db" [inner, middle]) command }
  | other => .error (.unknownCommand other)

end Invocation

end FeatureAtlas
