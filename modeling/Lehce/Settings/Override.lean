import Lehce.Crash
import Lehce.Number.Integral
import Lehce.Settings.Basic
import Lehce.Value.Heap

/-!
# Overrides

A settings script overrides a setting by leaving a value in the variable named after
it. The value has to fit the type of the setting: numbers fit number types, a truth
value and a text fit their own types, and a list of texts fits a list of texts.
Integers keep only the bits that their type has. A value that is none crashes, and so
does a list item without an end that would have to be shown.
-/

namespace Lehce

/-- The shapes of the values that settings take. -/
inductive SettingShape where
  | integer (bits : Nat)
  | natural (bits : Nat)
  | floating
  | bool
  | text
  | texts
  | other
  deriving Repr, DecidableEq

/-- The type of a setting, with the name by which problems refer to it. -/
structure SettingType where
  name : String
  shape : SettingShape
  deriving Repr, DecidableEq

/-- A value for a setting. -/
inductive SettingValue where
  | integer (value : Int)
  | natural (value : Nat)
  | floating (value : Float)
  | bool (value : Bool)
  | text (content : String)
  | texts (items : List String)

/-- Why a value does not fit a setting. -/
inductive OverrideError where
  | notInteger (value : Float)
  | notNatural (value : Float)
  | notText (item : Datum)
  | wrongKind (kind : ValueKind) (type : String)
  | crash (reason : Crash)

/-- The text of a misfit. -/
def OverrideError.message : OverrideError → String
  | notInteger value => Number.plainText value ++ " is not an integer"
  | notNatural value => Number.plainText value ++ " is not a natural number"
  | notText item => "list item " ++ item.quoted ++ " is not text"
  | wrongKind kind type => "cannot use " ++ kind.name ++ " as " ++ type
  | crash reason => reason.message

/-- The content of every item, or the first item that is no text. -/
def textItems (heap : Heap) : List Value → Except OverrideError (List String)
  | [] => .ok []
  | .text content :: rest => do return content :: (← textItems heap rest)
  | item :: _ =>
    match heap.datum item with
    | some item => .error (.notText item)
    | none => .error (.crash .endless)

/-- Fits a value to the type of a setting. -/
def SettingType.fit (type : SettingType) (heap : Heap) (value : Value) :
    Except OverrideError SettingValue :=
  match value, type.shape with
  | .absent, _ => .error (.crash .missing)
  | .number x, .integer bits =>
    if Number.isIntegral x then .ok (.integer (Int.bmod (Number.truncate x) (Nat.pow 2 bits)))
    else .error (.notInteger x)
  | .number x, .natural bits =>
    if Number.isIntegral x && !(x < 0) then
      .ok (.natural ((Number.truncate x).toNat % Nat.pow 2 bits))
    else .error (.notNatural x)
  | .number x, .floating => .ok (.floating x)
  | .bool b, .bool => .ok (.bool b)
  | .text content, .text => .ok (.text content)
  | .list place, .texts => (textItems heap (heap.items place).toList).map .texts
  | _, _ => .error (.wrongKind value.kind type.name)

/-- A misfit with the name of the setting. -/
structure NamedOverrideError where
  setting : String
  error : OverrideError

/-- The text of a misfit with the name of the setting. -/
def NamedOverrideError.message (named : NamedOverrideError) : String :=
  "config " ++ named.setting ++ ": " ++ named.error.message

/-- A setting that scripts can override, in a state of type `σ`. -/
structure Overridable (σ : Type) where
  name : String
  type : SettingType
  set : SettingValue → σ → σ

/-- The variables that a script left behind, and the heap of their values. -/
structure Bindings where
  heap : Heap := {}
  named : List (String × Value) := []

/-- Overrides every setting that is named by a variable. -/
def applyOverrides {σ : Type} (bindings : Bindings) :
    List (Overridable σ) → σ → Except NamedOverrideError σ
  | [], state => .ok state
  | setting :: rest, state =>
    match bindings.named.lookup setting.name with
    | none => applyOverrides bindings rest state
    | some value =>
      match setting.type.fit bindings.heap value with
      | .error error => .error ⟨setting.name, error⟩
      | .ok value => applyOverrides bindings rest (setting.set value state)

namespace Settings

/-- The settings that scripts can override. -/
def overridable : List (Overridable Settings) := [
  { name := "max_call_depth"
    type := ⟨"karamelconfigs.MaxCallDepth", .integer 64⟩
    set := fun value settings => match value with
      | .integer n => { settings with callDepth := n }
      | _ => settings },
  { name := "stack_size"
    type := ⟨"karamelconfigs.StackSize", .integer 64⟩
    set := fun value settings => match value with
      | .integer n => { settings with stackSize := n }
      | _ => settings },
  { name := "dump_opcodes"
    type := ⟨"karamelconfigs.DumpOpcodes", .bool⟩
    set := fun value settings => match value with
      | .bool b => { settings with listing := b }
      | _ => settings },
  { name := "disabled_builtins"
    type := ⟨"karamelconfigs.DisabledBuiltins", .texts⟩
    set := fun value settings => match value with
      | .texts items => { settings with disabled := items }
      | _ => settings }]

/-- The settings after the overrides of a script. -/
def override (settings : Settings) (bindings : Bindings) :
    Except NamedOverrideError Settings :=
  applyOverrides bindings overridable settings

end Settings

end Lehce
