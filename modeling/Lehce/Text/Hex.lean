import Lehce.Number.Numeral
import Lehce.Text.Quoted

/-!
# Bytes in hexadecimal

Bytes written as two hexadecimal digits each, and read from them.
-/

namespace Lehce.Text

/-- Bytes in lower-case hexadecimal. -/
def hexOfBytes (bytes : List UInt8) : String :=
  bytes.foldl (fun written byte => written ++ hex 2 byte.toNat) ""

/-- The bytes of pairs of digits; a character that is no digit counts as zero. -/
def bytesOfDigits : List Char → List UInt8
  | high :: low :: rest =>
    let value (c : Char) : Nat := (Number.positionalValue? 16 [c]).getD 0
    (value high * 16 + value low).toUInt8 :: bytesOfDigits rest
  | _ => []

/-- The bytes that a hexadecimal text stands for. -/
def bytesOfHex (text : String) : List UInt8 := bytesOfDigits text.toList

end Lehce.Text
