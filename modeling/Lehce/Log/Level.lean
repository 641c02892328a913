import Lehce.Number.Numeral
import Lehce.Text.Case

/-!
# Log levels

A log level is an integer. Four levels have names, and every other level is written
as the highest named level that is not above it and a signed distance. Below the
lowest name the distance is negative.
-/

namespace Lehce.Log

/-- How much a log record matters. -/
structure Level where
  value : Int
  deriving Repr, DecidableEq

namespace Level

/-- Steps on the way. -/
def debug : Level := ⟨-4⟩

/-- What happened. -/
def info : Level := ⟨0⟩

/-- What somebody should look at. -/
def warn : Level := ⟨4⟩

/-- What went wrong. -/
def error : Level := ⟨8⟩

/-- The named levels, the lowest first. -/
def named : List (String × Level) :=
  [("DEBUG", debug), ("INFO", info), ("WARN", warn), ("ERROR", error)]

/-- A distance with its sign, or nothing for zero. -/
def distanceText (distance : Int) : String :=
  if distance = 0 then ""
  else if 0 < distance then "+" ++ toString distance
  else toString distance

/-- The text of a level. -/
def text (level : Level) : String :=
  let (name, base) :=
    if level.value < info.value then ("DEBUG", debug)
    else if level.value < warn.value then ("INFO", info)
    else if level.value < error.value then ("WARN", warn)
    else ("ERROR", error)
  name ++ distanceText (level.value - base.value)

/-- Why a text is no level. -/
inductive Problem where
  | unknownName
  | badDistance (distance : String) (problem : Number.NumeralProblem)
  deriving Repr, DecidableEq

/-- The reason in words. -/
def Problem.reason : Problem → String
  | unknownName => "unknown name"
  | badDistance distance problem =>
    let why := match problem with
      | .syntaxInvalid => "invalid syntax"
      | .outOfRange => "value out of range"
    "strconv.Atoi: parsing " ++ Text.quote distance ++ ": " ++ why

/-- The text of a refusal. -/
def Problem.message (level : String) (problem : Problem) : String :=
  "slog: level string " ++ Text.quote level ++ ": " ++ problem.reason

/-- Reads a level: a name in any letter case, and perhaps a signed distance from it. -/
def ofText (level : String) : Except Problem Level :=
  let isSign (c : Char) : Bool := c == '+' || c == '-'
  let name := level.toList.takeWhile fun c => !isSign c
  let distance := level.toList.dropWhile fun c => !isSign c
  let offset : Except Problem Int :=
    if distance.isEmpty then .ok 0
    else match Number.readInteger 10 64 distance with
      | .ok n => .ok n
      | .error problem => .error (.badDistance (String.ofList distance) problem)
  match offset with
  | .error problem => .error problem
  | .ok offset =>
    match named.lookup (Text.upper (String.ofList name)) with
    | some base => .ok ⟨base.value + offset⟩
    | none => .error .unknownName

end Level

end Lehce.Log
