import Lehce.Command.Binding
import Lehce.Command.Usage
import Lehce.Log.Level

/-!
# Flags

The commands of the command line. They choose what to do with which program and
overrule settings; all they do is to change a value of type `Flags`.
-/

namespace Lehce

open Command (Table Argument ArgumentType DuplicatedName)

/-- What the words of a command line have chosen so far, and what they have printed. -/
structure Flags where
  runPath : String := ""
  source : String := ""
  session : Bool := false
  buildPath : String := ""
  imagePath : String := ""
  inspect : Bool := false
  callDepth : Int := 0
  stackSize : Int := 0
  listing : Bool := false
  disabled : List String := []
  level : Log.Level := .warn
  levelChosen : Bool := false
  printed : String := ""

namespace Flags

/-- The level names that have a flag, each with its level. -/
def levels : List (String × Log.Level) :=
  [("debug", .debug), ("info", .info), ("warn", .warn), ("error", .error)]

/-- What the version command prints. -/
def versionText (verbose : Bool) (level : Log.Level) : String :=
  "karamel image v1\n" ++ (if verbose then "log level " ++ level.text ++ "\n" else "")

/-- The command that prints the version of the image layout. -/
def versionCommand {σ : Type} (modify : (Flags → Flags) → σ → σ) : Command σ :=
  .plain (some {
    parameters := [{ type := .bool, optional := true }]
    run := fun arguments state =>
      let verbose := arguments.any Argument.boolD
      (modify (fun flags =>
        { flags with printed := flags.printed ++ versionText verbose flags.level }) state, none) })
    [] "print the image format version"

/-- Adds the commands to a table whose state holds flags. -/
def define {σ : Type} (modify : (Flags → Flags) → σ → σ) (table : Table σ) :
    Except DuplicatedName (Table σ) := do
  let setText (set : String → Flags → Flags) (argument : Argument) : σ → σ :=
    modify (set argument.textD)
  let table ← table.variableNamed "run" .text
    (setText fun path flags => { flags with runPath := path })
  let table ← table.variableNamed "eval" .text
    (setText fun source flags => { flags with source })
  let table ← table.switchNamed "repl" fun on => modify fun flags => { flags with session := on }
  let table ← table.variableNamed "-build" .text
    (setText fun path flags => { flags with buildPath := path })
  let table ← table.variableNamed "-image" .text
    (setText fun path flags => { flags with imagePath := path })
  let table ← table.switchNamed "-tap" fun on => modify fun flags => { flags with inspect := on }
  let table ← table.variableNamed "-max-call-depth" .int fun argument =>
    modify fun flags => { flags with callDepth := argument.integerD }
  let table ← table.variableNamed "-stack-size" .int fun argument =>
    modify fun flags => { flags with stackSize := argument.integerD }
  let table ← table.switchNamed "-dump" fun on => modify fun flags => { flags with listing := on }
  let table ← table.collectionNamed "-disable" .text fun argument =>
    modify fun flags => { flags with disabled := flags.disabled ++ [argument.textD] }
  let table ← levels.foldlM (fun table (name, level) =>
    table.define ["-log-" ++ name] (Table.change
      (modify fun flags => { flags with level, levelChosen := true })
      ("set log level to " ++ name))) table
  table.define ["version"] (versionCommand modify)

/-- The commands of the command line. -/
def table : Table Flags :=
  match define id .initial with
  | .ok table => table
  | .error _ => .initial

end Flags

end Lehce
