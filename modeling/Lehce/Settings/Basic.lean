import Lehce.Machine.State
import Lehce.Natives.Standard

/-!
# Settings

What can be set about compiling and running programs. Flags, settings files and
settings scripts each have a say; `Settings` is what came of it.
-/

namespace Lehce

/-- The settings of a toolchain. Limits that are not positive mean the default ones. -/
structure Settings where
  callDepth : Int := 1024
  stackSize : Int := 256
  listing : Bool := false
  disabled : List String := []
  deriving Repr, DecidableEq

/-- The first value that says something, that is, differs from the zero of its type. -/
def firstSet {α : Type} [BEq α] (zero : α) (values : List α) : α :=
  (values.find? (· != zero)).getD zero

namespace Settings

/-- The native functions that are not disabled. -/
def registry (settings : Settings) : Registry := Natives.standard.without settings.disabled

/-- The limits of a run. -/
def limits (settings : Settings) : Limits := .ofInts settings.callDepth settings.stackSize

end Settings

end Lehce
