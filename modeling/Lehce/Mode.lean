/-!
# Modes

A process runs in production or in development. Only a production run looks at the
settings files and scripts of its host; every other run is hermetic.
-/

namespace Lehce

/-- How a process uses its host; a mode that was never chosen is unknown. -/
inductive Mode where
  | unknown
  | production
  | development
  deriving Repr, DecidableEq, Inhabited

namespace Mode

/-- The mode with a number. -/
def ofNumber : Nat → Mode
  | 1 => production
  | 2 => development
  | _ => unknown

/-- The name of a mode. -/
def name : Mode → String
  | unknown => "unknown"
  | production => "production"
  | development => "development"

/-- Whether the settings found on the host are ignored. -/
def hermetic (mode : Mode) : Bool := mode != production

end Mode

end Lehce
