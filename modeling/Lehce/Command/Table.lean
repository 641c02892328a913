import Lehce.Command.Argument

/-!
# Commands

A command has an action, a set of sub commands, or both. An action takes its
arguments, changes a state and may fail. A command line is read from left to right:
each word names a command, whose arguments are the words after it; the sub commands
of a command that was carried out can be used in the rest of the line.

A table holds commands under names of which none is used twice.
-/

namespace Lehce

/-- What a command does with its arguments to a state of type `σ`. -/
structure Command.Action (σ : Type) where
  parameters : List Command.Parameter := []
  run : List Command.Argument → σ → σ × Option Command.Problem

/--
A command. Without an action it only opens its sub commands; a sub command that is
missing has a name but cannot be carried out. The one command that shows the usage
ends the command line.
-/
inductive Command (σ : Type) where
  | plain (action : Option (Command.Action σ)) (subs : List (String × Option (Command σ)))
      (description : String)
  | usage (description : String)

namespace Command

variable {σ : Type}

/-- The sub commands of a command. -/
def subs : Command σ → List (String × Option (Command σ))
  | plain _ subs _ => subs
  | usage _ => []

/-- The description of a command. -/
def description : Command σ → String
  | plain _ _ description => description
  | usage description => description

/-- The parameters of a command. -/
def parameters : Command σ → List Parameter
  | plain (some action) _ _ => action.parameters
  | plain none _ _ => []
  | usage _ => []

/-- Commands with all their names. -/
structure Table (σ : Type) where
  entries : List (List String × Command σ) := []

/-- The sub commands that can be used, the ones opened last first. -/
abbrev Scopes (σ : Type) := List (List (String × Option (Command σ)))

/-- A name that stands for two commands. -/
structure DuplicatedName where
  name : String
  deriving Repr, DecidableEq

/-- The text of a refusal. -/
def DuplicatedName.message (duplicated : DuplicatedName) : String :=
  "duplicated command " ++ duplicated.name

/-- How a command line ended. -/
inductive Ending where
  | done
  | failed (problem : Problem)
  | usage
  deriving Repr, DecidableEq

namespace Table

variable {σ : Type}

/-- All names of a table with their commands. -/
def scope (table : Table σ) : List (String × Option (Command σ)) :=
  table.entries.flatMap fun (names, command) => names.map fun name => (name, some command)

/-- The first of some names that is taken, or that comes twice. -/
def firstTaken (taken : List String) : List String → Option String
  | [] => none
  | name :: rest => if taken.contains name then some name else firstTaken (name :: taken) rest

/-- Adds a command under some names. -/
def define (table : Table σ) (names : List String) (command : Command σ) :
    Except DuplicatedName (Table σ) :=
  match firstTaken (table.scope.map (·.1)) names with
  | some name => .error ⟨name⟩
  | none => .ok ⟨table.entries ++ [(names, command)]⟩

/-- The table that only knows how to show its usage. -/
def initial : Table σ :=
  ⟨[(["-h", "help", "-help", "--help"], .usage "print this usage")]⟩

/-- The command of a name; of two scopes the one opened last counts. -/
def lookup (scopes : Scopes σ) (name : String) : Option (Option (Command σ)) :=
  scopes.findSome? fun scope => scope.lookup name

/-- Carries out a command line. -/
def executeIn : Nat → Scopes σ → List String → σ → Ending × σ
  | 0, _, _, state => (.done, state)
  | _, _, [], state => (.done, state)
  | steps + 1, scopes, word :: words, state =>
    let name := Text.trim word
    match lookup scopes name with
    | none | some none => (.failed (.unknownCommand name), state)
    | some (some (.usage _)) => (.usage, state)
    | some (some (.plain action subs _)) =>
      let called : Except Problem (List String × σ × Option Problem) := match action with
        | none => .ok (words, state, none)
        | some action => do
          let (arguments, words) ← takeArguments action.parameters words
          let (state, problem) := action.run arguments state
          return (words, state, problem)
      match called with
      | .error problem => (.failed problem, state)
      | .ok (_, state, some problem) => (.failed problem, state)
      | .ok (words, state, none) =>
        match subs.find? fun sub => (lookup scopes sub.1).isSome with
        | some sub => (.failed (.duplicatedSub name sub.1), state)
        | none => executeIn steps (if subs.isEmpty then scopes else subs :: scopes) words state

/-- Carries out a command line. -/
def execute (table : Table σ) (words : List String) (state : σ) : Ending × σ :=
  executeIn (words.length + 1) [table.scope] words state

end Table

end Command

end Lehce
