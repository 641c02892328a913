import Lehce.Log.Level
import Lehce.Text.Space

/-!
# Log records

A log record is one line: its level, its message and its fields, each as a name, an
equals sign and a value. A value is quoted when a reader could not tell otherwise
where it ends. A record may belong to a span, the identity of one piece of work,
which is its last field.
-/

namespace Lehce.Log

/-- Whether a character of a value makes quotes necessary. -/
def needsQuotes (c : Char) : Bool :=
  if c.toNat < 0x80 then c == ' ' || c == '=' || c == '"' || c.toNat < 0x20
  else c.toNat == 0xfffd || Text.isSpace c || !Text.isPrintable c

/-- A value as it stands in a line. -/
def valueText (value : String) : String :=
  if value.isEmpty || value.any needsQuotes then Text.quote value else value

/-- A record. -/
structure Record where
  level : Level
  message : String
  fields : List (String × String) := []
  spanned : Bool := true
  deriving Repr, DecidableEq

namespace Record

/-- All fields of a record in a span. -/
def allFields (record : Record) (span : String) : List (String × String) :=
  [("level", record.level.text), ("msg", record.message)] ++ record.fields ++
    (if record.spanned then [("logs.span", span)] else [])

/-- The line of a record, given the name of its span. -/
def line (record : Record) (span : String) : String :=
  " ".intercalate ((record.allFields span).map fun (name, value) =>
    name ++ "=" ++ valueText value) ++ "\n"

end Record

/-- The lines of the records that are not below a level. -/
def lines (least : Level) (span : String) (records : List Record) : String :=
  String.join ((records.filter fun record => least.value ≤ record.level.value).map
    (·.line span))

end Lehce.Log
