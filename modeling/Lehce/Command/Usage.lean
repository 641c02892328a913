import Lehce.Command.Table

/-!
# Usage

The usage of a table has one line per command, in the order of the commands' first
names: all names in ascending order, the parameters, and the description after a
tabulator. Sub commands follow, indented.
-/

namespace Lehce.Command

variable {σ : Type}

/-- A parameter in a usage line. -/
def Parameter.usage (parameter : Parameter) : String :=
  if parameter.optional then " [" ++ parameter.type.name ++ "]"
  else " <" ++ parameter.type.name ++ ">"

/-- Texts in ascending order. -/
def sorted (texts : List String) : List String := texts.mergeSort fun a b => !(b < a)

/-- The usage line of a command. -/
def usageLine (depth : Nat) (names : List String) (command : Command σ) : String :=
  let description :=
    if command.description.isEmpty then "" else "\t" ++ command.description
  String.join (List.replicate depth "  ") ++ ", ".intercalate (sorted names) ++
    String.join (command.parameters.map Parameter.usage) ++ description ++ "\n"

/-- Entries in the order of their keys. -/
def byName {α : Type} (entries : List (String × α)) : List (String × α) :=
  entries.mergeSort fun a b => !(b.1 < a.1)

mutual

/-- The usage of the sub commands of a command. -/
def subsUsage (depth : Nat) : Command σ → String
  | .plain _ subs _ => String.join ((byName (subUsages depth subs)).map (·.2))
  | .usage _ => ""

/-- The usages of sub commands with their names; a missing one has none. -/
def subUsages (depth : Nat) : List (String × Option (Command σ)) → List (String × String)
  | [] => []
  | (_, none) :: rest => subUsages depth rest
  | (name, some command) :: rest =>
    (name, usageLine depth [name] command ++ subsUsage (depth + 1) command) ::
      subUsages depth rest

end

/-- The usage of a table. -/
def Table.usage (table : Table σ) : String :=
  let entries := table.entries.map fun (names, command) =>
    ((sorted names).headD "", usageLine 0 names command ++ subsUsage 1 command)
  String.join ((byName entries).map (·.2))

end Lehce.Command
