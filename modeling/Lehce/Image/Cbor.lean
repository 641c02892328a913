import Lehce.Number.Format

/-!
# CBOR items

The items of the Concise Binary Object Representation that images are written in,
their canonical bytes, and a reader of all well-formed items. Canonical bytes use
the shortest head for every count and integer and the narrowest exact format for
every floating-point number. The reader also takes longer heads, items of
indefinite length and tags, up to a nesting of thirty-two.
-/

namespace Lehce.Cbor

/-- A data item. A negative item `n` stands for `-1 - n`. Strings keep the chunks they came in. -/
inductive Item where
  | unsigned (value : Nat)
  | negative (value : Nat)
  | bytes (chunks : List (List UInt8))
  | text (chunks : List (List UInt8))
  | array (items : List Item)
  | map (entries : List (Item × Item))
  | tag (number : Nat) (content : Item)
  | simple (value : Nat)
  | float (value : Float)
  deriving Inhabited

/-- The `width` bytes of a number, the highest first. -/
def bigEndian : Nat → Nat → List UInt8
  | 0, _ => []
  | width + 1, n => (n / Nat.pow 256 width % 256).toUInt8 :: bigEndian width n

/-- The number that some bytes stand for, the highest first. -/
def ofBigEndian (bytes : List UInt8) : Nat :=
  bytes.foldl (fun n byte => n * 256 + byte.toNat) 0

/-- The shortest head of a major type with an argument. -/
def head (major argument : Nat) : List UInt8 :=
  let first (info : Nat) : UInt8 := (major * 32 + info).toUInt8
  if argument < 24 then [first argument]
  else if argument < 256 then first 24 :: bigEndian 1 argument
  else if argument < 65536 then first 25 :: bigEndian 2 argument
  else if argument < Nat.pow 2 32 then first 26 :: bigEndian 4 argument
  else first 27 :: bigEndian 8 argument

open Number (Format Scaled) in
/--
The bits of a magnitude in a narrow format of `fractionBits` bits of fraction, when
the format has it exactly.
-/
def narrowBits? (format : Format) (fractionBits : Nat) (magnitude : Scaled) : Option Nat :=
  let (num, den) := magnitude.quotient
  match format.nearest num den with
  | none => none
  | some rounded =>
    let (num', den') := rounded.quotient
    if num * den' = num' * den then
      if rounded.significand < Nat.pow 2 fractionBits then some rounded.significand
      else some ((rounded.exponent - format.least + 1).toNat * Nat.pow 2 fractionBits +
        (rounded.significand - Nat.pow 2 fractionBits))
    else none

/-- The canonical bytes of a floating-point number. -/
def floatBytes (x : Float) : List UInt8 :=
  match Number.parts x with
  | .nan => 0xf9 :: bigEndian 2 0x7e00
  | .infinite negative => 0xf9 :: bigEndian 2 (if negative then 0xfc00 else 0x7c00)
  | .finite negative magnitude =>
    let sign (bits : Nat) : Nat := if negative then Nat.pow 2 bits else 0
    match narrowBits? .half 10 magnitude with
    | some bits => 0xf9 :: bigEndian 2 (sign 15 + bits)
    | none =>
      match narrowBits? .single 23 magnitude with
      | some bits => 0xfa :: bigEndian 4 (sign 31 + bits)
      | none => 0xfb :: bigEndian 8 x.toBits.toNat

mutual

/-- The canonical bytes of an item. -/
def Item.encode : Item → List UInt8
  | .unsigned value => head 0 value
  | .negative value => head 1 value
  | .bytes chunks => let all := chunks.flatten; head 2 all.length ++ all
  | .text chunks => let all := chunks.flatten; head 3 all.length ++ all
  | .array items => head 4 items.length ++ encodeItems items
  | .map entries => head 5 entries.length ++ encodeEntries entries
  | .tag number content => head 6 number ++ content.encode
  | .simple value => head 7 value
  | .float value => floatBytes value

/-- The canonical bytes of some items. -/
def encodeItems : List Item → List UInt8
  | [] => []
  | item :: rest => item.encode ++ encodeItems rest

/-- The canonical bytes of the entries of a map. -/
def encodeEntries : List (Item × Item) → List UInt8
  | [] => []
  | (key, value) :: rest => key.encode ++ value.encode ++ encodeEntries rest

end

/-- An integer as an item. -/
def Item.ofInt (n : Int) : Item := if n < 0 then .negative (-1 - n).toNat else .unsigned n.toNat

/-- A text as an item. -/
def Item.ofString (text : String) : Item := .text [text.toUTF8.toList]

/-- The item that stands for nothing. -/
def Item.null : Item := .simple 22

/-- The first byte of an item taken apart, with its argument; an indefinite length has none. -/
structure Head where
  major : Nat
  info : Nat
  argument : Nat
  rest : List UInt8

/-- The names of the major types. -/
def majorName : Nat → String
  | 0 => "positive integer"
  | 1 => "negative integer"
  | 2 => "byte string"
  | 3 => "UTF-8 text string"
  | 4 => "array"
  | 5 => "map"
  | 6 => "tag"
  | _ => "primitives"

/-- The deepest nesting of arrays, maps and tags. -/
def maxNesting : Nat := 32

/-- The most items of an array, and entries of a map. -/
def maxCount : Nat := 131072

/-- Why bytes are not one item. -/
inductive Problem where
  | empty
  | truncated
  | extraneous (count start : Nat)
  | badInfo (info major : Nat)
  | badSimple (value : Nat)
  | strayBreak
  | wrongChunk (chunk major : Nat)
  | openChunk (major : Nat)
  | hugeLength (major length : Nat)
  | tooDeep
  | tooManyItems
  | tooManyEntries
  deriving Repr, DecidableEq

/-- The text of a problem. -/
def Problem.message : Problem → String
  | empty => "EOF"
  | truncated => "unexpected EOF"
  | extraneous count start =>
    "cbor: " ++ toString count ++ " bytes of extraneous data starting at index " ++ toString start
  | badInfo info major =>
    "cbor: invalid additional information " ++ toString info ++ " for type " ++ majorName major
  | badSimple value => "cbor: invalid simple value " ++ toString value ++ " for type primitives"
  | strayBreak => "cbor: unexpected \"break\" code"
  | wrongChunk chunk major =>
    "cbor: wrong element type " ++ majorName chunk ++ " for indefinite-length " ++ majorName major
  | openChunk major =>
    "cbor: indefinite-length " ++ majorName major ++ " chunk is not definite-length"
  | hugeLength major length =>
    "cbor: " ++ majorName major ++ " length " ++ toString length ++ " is too large, " ++
      (if major < 4 then "causing integer overflow" else "it would cause integer overflow")
  | tooDeep => "cbor: exceeded max nested level " ++ toString maxNesting
  | tooManyItems =>
    "cbor: exceeded max number of elements " ++ toString maxCount ++ " for CBOR array"
  | tooManyEntries =>
    "cbor: exceeded max number of key-value pairs " ++ toString maxCount ++ " for CBOR map"

/-- Reads a head. -/
def readHead : List UInt8 → Except Problem Head
  | [] => .error .truncated
  | first :: rest =>
    let major := first.toNat / 32
    let info := first.toNat % 32
    let wide (width : Nat) : Except Problem Head :=
      if rest.length < width then .error .truncated
      else .ok ⟨major, info, ofBigEndian (rest.take width), rest.drop width⟩
    if info < 24 then .ok ⟨major, info, info, rest⟩
    else match info with
      | 24 =>
        match wide 1 with
        | .ok h => if major = 7 ∧ h.argument < 32 then .error (.badSimple h.argument) else .ok h
        | .error problem => .error problem
      | 25 => wide 2
      | 26 => wide 4
      | 27 => wide 8
      | 31 =>
        if major = 0 ∨ major = 1 ∨ major = 6 then .error (.badInfo info major)
        else if major = 7 then .error .strayBreak
        else .ok ⟨major, info, info, rest⟩
      | _ => .error (.badInfo info major)

/-- Splits off the bytes of a string, when there are as many. -/
def takeBytes (h : Head) : Except Problem (List UInt8 × List UInt8) :=
  if Nat.pow 2 63 ≤ h.argument then .error (.hugeLength h.major h.argument)
  else if h.rest.length < h.argument then .error .truncated
  else .ok (h.rest.take h.argument, h.rest.drop h.argument)

/-- Reads the chunks of a string of indefinite length; each is a definite string of its type. -/
def readChunks (major : Nat) : Nat → List UInt8 → Except Problem (List (List UInt8) × List UInt8)
  | 0, _ => .error .truncated
  | steps + 1, bytes =>
    match bytes with
    | [] => .error .truncated
    | 0xff :: rest => .ok ([], rest)
    | first :: _ =>
      if first.toNat / 32 ≠ major then .error (.wrongChunk (first.toNat / 32) major)
      else if first.toNat % 32 = 31 then .error (.openChunk major)
      else do
        let h ← readHead bytes
        let (chunk, rest) ← takeBytes h
        let (chunks, rest) ← readChunks major steps rest
        return (chunk :: chunks, rest)

/-- The number of a format with `fractionBits` bits of fraction that has these bits. -/
def wideFloat (format : Number.Format) (fractionBits exponentBits bits : Nat) : Float :=
  let negative : Bool := bits / Nat.pow 2 (fractionBits + exponentBits) % 2 = 1
  let field := bits / Nat.pow 2 fractionBits % Nat.pow 2 exponentBits
  let fraction := bits % Nat.pow 2 fractionBits
  if field = Nat.pow 2 exponentBits - 1 then
    if fraction = 0 then Number.infinity negative else Number.nan
  else
    let magnitude : Number.Scaled :=
      if field = 0 then ⟨fraction, format.least⟩
      else ⟨Nat.pow 2 fractionBits + fraction, format.least + (field : Int) - 1⟩
    Number.ofQuotient negative magnitude.quotient.1 magnitude.quotient.2

/-- The item of a major type seven head. -/
def simpleOrFloat (h : Head) : Item :=
  match h.info with
  | 25 => .float (wideFloat .half 10 5 h.argument)
  | 26 => .float (wideFloat .single 23 8 h.argument)
  | 27 => .float (Float.ofBits h.argument.toUInt64)
  | _ => .simple h.argument

/-- Why a number of items, or of entries, is too much. -/
def countProblem (major count : Nat) : Option Problem :=
  if Nat.pow 2 63 ≤ count then some (.hugeLength major count)
  else if maxCount < count then some (if major = 4 then .tooManyItems else .tooManyEntries)
  else none

/-- Items two by two. -/
def pairUp : List Item → List (Item × Item)
  | key :: value :: rest => (key, value) :: pairUp rest
  | _ => []

mutual

/-- Reads an item inside `nesting` others. -/
def readItem : Nat → Nat → List UInt8 → Except Problem (Item × List UInt8)
  | 0, _, _ => .error .truncated
  | steps + 1, nesting, bytes => do
    let h ← readHead bytes
    match h.major with
    | 0 => return (.unsigned h.argument, h.rest)
    | 1 => return (.negative h.argument, h.rest)
    | 2 =>
      if h.info = 31 then
        let (chunks, rest) ← readChunks 2 steps h.rest
        return (.bytes chunks, rest)
      else
        let (chunk, rest) ← takeBytes h
        return (.bytes [chunk], rest)
    | 3 =>
      if h.info = 31 then
        let (chunks, rest) ← readChunks 3 steps h.rest
        return (.text chunks, rest)
      else
        let (chunk, rest) ← takeBytes h
        return (.text [chunk], rest)
    | 4 =>
      if maxNesting < nesting + 1 then .error .tooDeep
      else if h.info = 31 then
        let (items, rest) ← readUntilBreak steps (nesting + 1) [] h.rest
        if maxCount < items.length then .error .tooManyItems else return (.array items, rest)
      else match countProblem 4 h.argument with
        | some problem => .error problem
        | none =>
          let (items, rest) ← readItems steps (nesting + 1) h.argument [] h.rest
          return (.array items, rest)
    | 5 =>
      if maxNesting < nesting + 1 then .error .tooDeep
      else if h.info = 31 then
        let (items, rest) ← readUntilBreak steps (nesting + 1) [] h.rest
        if maxCount < items.length / 2 then .error .tooManyEntries
        else if items.length % 2 = 1 then .error .strayBreak
        else return (.map (pairUp items), rest)
      else match countProblem 5 h.argument with
        | some problem => .error problem
        | none =>
          let (items, rest) ← readItems steps (nesting + 1) (2 * h.argument) [] h.rest
          return (.map (pairUp items), rest)
    | 6 =>
      let inner := match h.rest with
        | next :: _ => if next.toNat / 32 = 6 then nesting + 1 else nesting
        | [] => nesting
      if maxNesting < inner then .error .tooDeep
      else
        let (content, rest) ← readItem steps inner h.rest
        return (.tag h.argument content, rest)
    | _ => return (simpleOrFloat h, h.rest)

/-- Reads a number of items; `items` holds the last one first. -/
def readItems :
    Nat → Nat → Nat → List Item → List UInt8 → Except Problem (List Item × List UInt8)
  | 0, _, _, _, _ => .error .truncated
  | steps + 1, nesting, count, items, bytes =>
    match count with
    | 0 => .ok (items.reverse, bytes)
    | count + 1 =>
      match readItem steps nesting bytes with
      | .ok (item, rest) => readItems steps nesting count (item :: items) rest
      | .error problem => .error problem

/-- Reads items up to a break; `items` holds the last one first. -/
def readUntilBreak : Nat → Nat → List Item → List UInt8 → Except Problem (List Item × List UInt8)
  | 0, _, _, _ => .error .truncated
  | steps + 1, nesting, items, bytes =>
    match bytes with
    | [] => .error .truncated
    | 0xff :: rest => .ok (items.reverse, rest)
    | _ =>
      match readItem steps nesting bytes with
      | .ok (item, rest) => readUntilBreak steps nesting (item :: items) rest
      | .error problem => .error problem

end

/-- Reads bytes that are one item and nothing else. -/
def read (bytes : List UInt8) : Except Problem Item :=
  if bytes.isEmpty then .error .empty
  else match readItem (2 * bytes.length + 2) 0 bytes with
    | .ok (item, []) => .ok item
    | .ok (_, rest) => .error (.extraneous rest.length (bytes.length - rest.length))
    | .error problem => .error problem

end Lehce.Cbor
