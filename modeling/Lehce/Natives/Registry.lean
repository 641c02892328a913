import Lehce.Crash
import Lehce.Fault
import Lehce.Value.Heap

/-!
# Native functions

A native function works on its arguments, on the shared lists and dictionaries, on
the text still to be read and on the text written so far. A registry holds native
functions by their dotted names; a name without a dot also means the function of
that name in the module `base`.
-/

namespace Lehce

/--
What native functions can see and change. The text still to be read is one of characters; an
input with bytes that are no UTF-8 is not modelled.
-/
structure Host where
  heap : Heap := {}
  input : List Char := []
  output : String := ""
  deriving Inhabited

/-- Why a native function failed. One that crashes takes the whole process with it. -/
inductive NativeFailure where
  | fault (fault : Fault)
  | other (message : String)
  | crash (crash : Crash)
  deriving Repr, DecidableEq

/-- What a native function came to: its value, if any, and its failure, if any. -/
structure NativeResult where
  host : Host
  value : Value := .absent
  failure : Option NativeFailure := none

/-- A native function; without a number of arguments it takes any number. -/
structure Native where
  name : String
  arity : Option Nat
  run : List Value → Host → NativeResult

/-- Calls a native function after a check of the number of arguments. -/
def Native.call (native : Native) (args : List Value) (host : Host) : NativeResult :=
  let fits : Bool := match native.arity with
    | some n => args.length == n
    | none => true
  if fits then native.run args host
  else
    let expected := toString (native.arity.getD 0)
    let detail := native.name ++ " takes " ++ expected ++ " arguments, got " ++ toString args.length
    { host, failure := some (.fault (.runtime .argumentCountMismatch detail)) }

/-- Native functions by their names. -/
structure Registry where
  natives : List Native := []

namespace Registry

/-- The native function with a full name. -/
def find? (registry : Registry) (name : String) : Option Native :=
  registry.natives.find? (·.name == name)

/-- Adds a native function, in place of one with the same name. -/
def register (registry : Registry) (native : Native) : Registry :=
  ⟨registry.natives.filter (·.name != native.name) ++ [native]⟩

/-- The full name that a name stands for. -/
def resolve (registry : Registry) (name : String) : Option String :=
  if (registry.find? name).isSome then some name
  else if name.toList.contains '.' then none
  else
    let qualified := "base." ++ name
    if (registry.find? qualified).isSome then some qualified else none

/-- The registry without the functions that some names stand for. -/
def without (registry : Registry) (names : List String) : Registry :=
  let removed := names.filterMap registry.resolve
  ⟨registry.natives.filter fun native => !removed.contains native.name⟩

/-- The names of all functions in ascending order. -/
def names (registry : Registry) : List String :=
  (registry.natives.map (·.name)).mergeSort fun a b => !(b < a)

end Registry

end Lehce
