/-!
# Reading bytes as text

Bytes become characters by the UTF-8 rules. A byte that starts no well-formed
sequence reads as the replacement character, alone, and reading goes on with the
byte after it; so every sequence of bytes has a text.
-/

namespace Lehce.Text

/-- The character that stands for a byte which is no part of a character. -/
def replacement : Char := Char.ofNat 0xfffd

/-- Whether a byte continues a sequence. -/
def isContinuation (byte : UInt8) : Bool := byte.toNat / 64 == 2

/-- The character of a well-formed sequence at the front of the bytes, and the sequence's length. -/
def leadingChar : List UInt8 → Option (Char × Nat)
  | [] => none
  | a :: rest =>
    let first := a.toNat
    if first < 0x80 then some (Char.ofNat first, 1)
    else match rest with
      | b :: more =>
        let second := b.toNat
        if isContinuation b = false then none
        else if 0xc2 ≤ first ∧ first ≤ 0xdf then
          some (Char.ofNat ((first - 0xc0) * 64 + (second - 0x80)), 2)
        else match more with
          | c :: others =>
            let third := c.toNat
            if isContinuation c = false then none
            else if (0xe1 ≤ first ∧ first ≤ 0xec) ∨ first = 0xee ∨ first = 0xef ∨
                (first = 0xe0 ∧ 0xa0 ≤ second) ∨ (first = 0xed ∧ second ≤ 0x9f) then
              some (Char.ofNat
                ((first - 0xe0) * 4096 + (second - 0x80) * 64 + (third - 0x80)), 3)
            else match others with
              | d :: _ =>
                if isContinuation d = false then none
                else if (0xf1 ≤ first ∧ first ≤ 0xf3) ∨ (first = 0xf0 ∧ 0x90 ≤ second) ∨
                    (first = 0xf4 ∧ second ≤ 0x8f) then
                  some (Char.ofNat ((first - 0xf0) * 262144 + (second - 0x80) * 4096 +
                    (third - 0x80) * 64 + (d.toNat - 0x80)), 4)
                else none
              | [] => none
          | [] => none
      | [] => none

/-- The characters of some bytes; `skip` bytes at the front belong to a character already read. -/
def charsOfBytes : Nat → List UInt8 → List Char → List Char
  | _, [], chars => chars.reverse
  | skip + 1, _ :: rest, chars => charsOfBytes skip rest chars
  | 0, byte :: rest, chars =>
    match leadingChar (byte :: rest) with
    | some (c, length) => charsOfBytes (length - 1) rest (c :: chars)
    | none => charsOfBytes 0 rest (replacement :: chars)

/-- The text of some bytes, malformed bytes replaced. -/
def ofBytes (bytes : List UInt8) : String := String.ofList (charsOfBytes 0 bytes [])

/-- The characters of bytes that are well formed throughout, or nothing. -/
def strictChars : Nat → List UInt8 → List Char → Option (List Char)
  | _, [], chars => some chars.reverse
  | skip + 1, _ :: rest, chars => strictChars skip rest chars
  | 0, byte :: rest, chars =>
    match leadingChar (byte :: rest) with
    | some (c, length) => strictChars (length - 1) rest (c :: chars)
    | none => none

/-- The text of bytes that are well formed throughout, or nothing. -/
def ofBytes? (bytes : List UInt8) : Option String := (strictChars 0 bytes []).map String.ofList

end Lehce.Text
