import Lehce.Number.Layout
import Lehce.Number.Numeral
import Lehce.Text.Truth

/-!
# Arguments

The arguments of commands are typed. A parameter takes the next word of a command
line and reads it as its type; an optional parameter that finds no word has the zero
value of its type.
-/

namespace Lehce.Command

/--
The types of parameters. A `foreign` type has a name and a zero, but no word can be
read as it.
-/
inductive ArgumentType where
  | text
  | bool
  | integer (name : String) (bits : Nat)
  | natural (name : String) (bits : Nat)
  | floating (name : String) (format : Number.Format)
  | foreign (name : String) (zero : String)

namespace ArgumentType

/-- The name of a type. -/
def name : ArgumentType → String
  | text => "string"
  | bool => "bool"
  | integer name _ | natural name _ | floating name _ | foreign name _ => name

/-- Signed integers of the machine's width. -/
def int : ArgumentType := integer "int" 64

/-- Double-precision numbers. -/
def float : ArgumentType := floating "float64" .double

/-- The types that words can be read as. -/
def readable : List ArgumentType :=
  [text, bool, int, integer "int8" 8, integer "int16" 16, integer "int32" 32,
    integer "int64" 64, natural "uint" 64, natural "uint8" 8, natural "uint16" 16,
    natural "uint32" 32, natural "uint64" 64, floating "float32" .single, float]

end ArgumentType

/-- An argument. -/
inductive Argument where
  | text (content : String)
  | bool (value : Bool)
  | integer (value : Int)
  | natural (value : Nat)
  | floating (value : Float) (layout : String)
  | foreign (layout : String)

namespace Argument

/-- The text of an argument. -/
def written : Argument → String
  | text content => content
  | bool value => if value then "true" else "false"
  | integer value => toString value
  | natural value => toString value
  | floating _ layout => layout
  | foreign layout => layout

/-- The content of a text argument, nothing for another one. -/
def textD : Argument → String
  | text content => content
  | _ => ""

/-- The value of an integer argument, zero for another one. -/
def integerD : Argument → Int
  | integer value => value
  | _ => 0

/-- The value of a truth argument, false for another one. -/
def boolD : Argument → Bool
  | bool value => value
  | _ => false

end Argument

/-- Why a command line does not fit its commands. -/
inductive Problem where
  | unknownCommand (name : String)
  | duplicatedSub (command sub : String)
  | missingArgument (type : String)
  | unsupportedType (type : String)
  | badArgument (word type : String) (reader : Number.NumeralReader)
      (problem : Number.NumeralProblem)
  | failed (message : String)
  deriving Repr, DecidableEq

/-- The text of a problem. -/
def Problem.message : Problem → String
  | unknownCommand name => "unknown command: " ++ name
  | duplicatedSub command sub => "duplicated sub command: " ++ command ++ " " ++ sub
  | missingArgument type => "missing " ++ type ++ " argument"
  | unsupportedType type => "unsupported argument type: " ++ type
  | badArgument word type reader problem =>
    "parse " ++ Text.quote word ++ " as " ++ type ++ ": " ++ problem.message reader word
  | failed message => message

/-- A number argument of a format. -/
def Argument.ofFloat (format : Number.Format) (value : Float) : Argument :=
  .floating value
    (if format = .single then Number.singleText value else Number.generalText value)

/-- The zero value of a type. -/
def ArgumentType.zero : ArgumentType → Argument
  | text => .text ""
  | bool => .bool false
  | integer _ _ => .integer 0
  | natural _ _ => .natural 0
  | floating _ format => .ofFloat format 0
  | foreign _ zero => .foreign zero

/-- Reads a word as a type. -/
def ArgumentType.read (type : ArgumentType) (word : String) : Except Problem Argument :=
  match type with
  | text => .ok (.text word)
  | bool => .ok (.bool (Text.meansTrue word))
  | integer name bits =>
    match Number.readInteger 10 bits word.toList with
    | .ok value => .ok (.integer value)
    | .error problem => .error (.badArgument word name .integer problem)
  | natural name bits =>
    match Number.readNatural 10 bits word.toList with
    | .ok value => .ok (.natural value)
    | .error problem => .error (.badArgument word name .natural problem)
  | floating name format =>
    match Number.readFloat format word.toList with
    | .ok value => .ok (.ofFloat format value)
    | .error problem => .error (.badArgument word name .floating problem)
  | foreign name _ => .error (.unsupportedType name)

/-- A parameter of a command. -/
structure Parameter where
  type : ArgumentType
  optional : Bool := false

/-- Takes the argument of a parameter off a command line. -/
def Parameter.take (parameter : Parameter) : List String → Except Problem (Argument × List String)
  | [] =>
    if parameter.optional then .ok (parameter.type.zero, [])
    else .error (.missingArgument parameter.type.name)
  | word :: rest => do return (← parameter.type.read word, rest)

/-- Takes the arguments of some parameters off a command line. -/
def takeArguments : List Parameter → List String → Except Problem (List Argument × List String)
  | [], words => .ok ([], words)
  | parameter :: rest, words => do
    let (argument, words) ← parameter.take words
    let (arguments, words) ← takeArguments rest words
    return (argument :: arguments, words)

end Lehce.Command
