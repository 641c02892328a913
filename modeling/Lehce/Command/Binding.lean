import Lehce.Command.Table

/-!
# Commands bound to state

The three ways in which a command line sets a part of a state: a variable takes the
last value given and can be cleared, a switch goes on and off, and a collection grows
by every value given.
-/

namespace Lehce.Command.Table

variable {σ : Type}

/-- An action with one parameter that cannot fail. -/
def setting (type : ArgumentType) (set : Argument → σ → σ) : Command σ :=
  .plain (some {
    parameters := [{ type }]
    run := fun arguments state =>
      match arguments with
      | argument :: _ => (set argument state, none)
      | [] => (state, none) }) [] ""

/-- An action without parameters that cannot fail. -/
def change (change : σ → σ) (description : String) : Command σ :=
  .plain (some { run := fun _ state => (change state, none) }) [] description

/-- Adds a variable: its name takes a value, and its name with a dot clears it. -/
def variableNamed (table : Table σ) (name : String) (type : ArgumentType)
    (set : Argument → σ → σ) : Except DuplicatedName (Table σ) := do
  let table ← table.define [name] (setting type set)
  table.define [name ++ "."] (change (set type.zero) "")

/-- Adds a switch: its name turns it on, and its name after an exclamation mark off. -/
def switchNamed (table : Table σ) (name : String) (set : Bool → σ → σ) :
    Except DuplicatedName (Table σ) := do
  let table ← table.define [name] (change (set true) "")
  table.define ["!" ++ name] (change (set false) "")

/-- Adds a collection: its name adds a value. -/
def collectionNamed (table : Table σ) (name : String) (type : ArgumentType)
    (add : Argument → σ → σ) : Except DuplicatedName (Table σ) :=
  table.define [name] (setting type add)

end Lehce.Command.Table
