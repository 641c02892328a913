import Lehce.Text.Printable

/-!
# Quoted texts

A quoted text stands between delimiters; the delimiter and the backslash are
escaped, the seven control characters with a letter of their own use it, and any
other character that is not printable is written by its code point.
-/

namespace Lehce.Text

/-- A number in lower-case hexadecimal with at least `width` digits. -/
def hex (width n : Nat) : String :=
  let digits := Nat.toDigits 16 n
  String.ofList (List.replicate (width - digits.length) '0' ++ digits)

/-- How one character is written inside a text delimited by `delimiter`. -/
def escapeChar (delimiter c : Char) : String :=
  if c = delimiter ∨ c = '\\' then "\\" ++ c.toString
  else if isPrintable c then c.toString
  else match c.toNat with
    | 0x07 => "\\a"
    | 0x08 => "\\b"
    | 0x0c => "\\f"
    | 0x0a => "\\n"
    | 0x0d => "\\r"
    | 0x09 => "\\t"
    | 0x0b => "\\v"
    | code =>
      if code < 0x20 ∨ code = 0x7f then "\\x" ++ hex 2 code
      else if code < 0x10000 then "\\u" ++ hex 4 code
      else "\\U" ++ hex 8 code

/-- A text between double quotes. -/
def quote (text : String) : String :=
  text.foldl (fun written c => written ++ escapeChar '"' c) "\"" ++ "\""

/-- A character between single quotes. -/
def quoteChar (c : Char) : String := "'" ++ escapeChar '\'' c ++ "'"

end Lehce.Text
