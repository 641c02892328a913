import Lehce.Yaml.Scalar

/-!
# Reading YAML

Reads the part of YAML that test suites are written in: mappings and sequences by
indentation or inside brackets, all kinds of scalars and tags. Anchors, aliases,
keys that are not scalars, and directives are refused like any other text that is no
document.
-/

namespace Lehce.Yaml

/-- A node that was read, and where the reader stands. -/
abbrev ReadNode := Node × Cursor

/-- Whether a character may be part of a tag. -/
def isTagChar (c : Char) : Bool :=
  c.isAlphanum || ['_', '-', ';', '/', '?', ':', '@', '&', '=', '+', '$', '.', '!', '~', '*',
    '\'', '(', ')', '%'].contains c

/-- Reads a tag; white space has to follow it. A lone exclamation mark gives none. -/
def readTag (cursor : Cursor) : Option (Option String × Cursor) :=
  let tag := cursor.rest.takeWhile isTagChar
  let rest := cursor.rest.drop tag.length
  if blankOrEnd rest then
    some (if tag = ['!'] then none else some (String.ofList tag),
      ⟨rest, cursor.column + tag.length⟩)
  else none

/-- Reads a quoted scalar, if one comes. -/
def readQuoted (cursor : Cursor) : Option (Option ReadScalar) :=
  match cursor.rest with
  | '"' :: _ => (readDouble (cursor.rest.length + 1) cursor.step [] false).map some
  | '\'' :: _ => (readSingle (cursor.rest.length + 1) cursor.step [] false).map some
  | _ => some none

/-- Reads a quoted or plain scalar. -/
def readInline (inFlow : Bool) (indent : Nat) (tag : Option String) (cursor : Cursor) :
    Option (Node × ReadScalar) := do
  match ← readQuoted cursor with
  | some scalar => return (.scalar tag true (String.ofList scalar.value), scalar)
  | none =>
    if beginsPlain inFlow cursor.rest then
      let scalar := readPlain inFlow indent (cursor.rest.length + 1) cursor [] false
      return (.scalar tag false (String.ofList scalar.value), scalar)
    else none

mutual

/-- Reads a node inside brackets. -/
def readFlow : Nat → Cursor → Option ReadNode
  | 0, _ => none
  | steps + 1, cursor =>
    match cursor.rest with
    | '!' :: _ =>
      match readTag cursor with
      | none => none
      | some (tag, cursor) =>
        let cursor := (cursor.skip true true).cursor
        match cursor.rest with
        | [] => none
        | c :: _ =>
          if c = ',' ∨ c = ']' ∨ c = '\x7d' then some (.scalar tag false "", cursor)
          else if c = '[' ∨ c = '\x7b' then readFlow steps cursor
          else (readInline true 0 tag cursor).map fun (node, scalar) => (node, scalar.cursor)
    | '[' :: _ => readFlowItems steps cursor.step []
    | '\x7b' :: _ => readFlowEntries steps cursor.step []
    | _ => (readInline true 0 none cursor).map fun (node, scalar) => (node, scalar.cursor)

/-- Reads the value after a colon inside brackets; nothing may be written there. -/
def readFlowValue : Nat → Cursor → Option ReadNode
  | 0, _ => none
  | steps + 1, cursor =>
    let cursor := (cursor.skip true true).cursor
    match cursor.rest with
    | [] => none
    | c :: _ =>
      if c = ',' ∨ c = ']' ∨ c = '\x7d' then some (.nothing, cursor) else readFlow steps cursor

/-- Reads items up to the closing bracket; `items` holds the last one first. -/
def readFlowItems : Nat → Cursor → List Node → Option ReadNode
  | 0, _, _ => none
  | steps + 1, cursor, items =>
    let cursor := (cursor.skip true true).cursor
    match cursor.rest with
    | ']' :: _ => some (.sequence items.reverse, cursor.step)
    | _ =>
      match readFlow steps cursor with
      | none => none
      | some (item, cursor) =>
        let cursor := (cursor.skip true true).cursor
        let paired : Option ReadNode := match cursor.rest with
          | ':' :: _ =>
            (readFlowValue steps cursor.step).map fun (value, cursor) =>
              (.mapping [(item, value)], cursor)
          | _ => some (item, cursor)
        match paired with
        | none => none
        | some (item, cursor) =>
          let cursor := (cursor.skip true true).cursor
          match cursor.rest with
          | ',' :: _ => readFlowItems steps cursor.step (item :: items)
          | ']' :: _ => some (.sequence (item :: items).reverse, cursor.step)
          | _ => none

/-- Reads entries up to the closing brace; `entries` holds the last one first. -/
def readFlowEntries : Nat → Cursor → List (Node × Node) → Option ReadNode
  | 0, _, _ => none
  | steps + 1, cursor, entries =>
    let cursor := (cursor.skip true true).cursor
    match cursor.rest with
    | '\x7d' :: _ => some (.mapping entries.reverse, cursor.step)
    | _ =>
      match readFlow steps cursor with
      | none => none
      | some (key, cursor) =>
        let cursor := (cursor.skip true true).cursor
        let valued : Option ReadNode := match cursor.rest with
          | ':' :: _ => readFlowValue steps cursor.step
          | _ => some (.nothing, cursor)
        match valued with
        | none => none
        | some (value, cursor) =>
          let cursor := (cursor.skip true true).cursor
          let entries := (key, value) :: entries
          match cursor.rest with
          | ',' :: _ => readFlowEntries steps cursor.step entries
          | '\x7d' :: _ => some (.mapping entries.reverse, cursor.step)
          | _ => none

end

/-- Whether an item of a sequence begins here. -/
def beginsItem : List Char → Bool
  | '-' :: rest => blankOrEnd rest
  | _ => false

/-- The cursor after the colon of a key, if a colon comes on the same line. -/
def afterColon? (scalar : ReadScalar) : Option Cursor :=
  let cursor := (scalar.cursor.skip false true)
  match cursor.cursor.rest with
  | ':' :: rest =>
    if blankOrEnd rest && !scalar.newLine && !cursor.newLine then some cursor.cursor.step
    else none
  | _ => none

/-- Whether a colon comes that is not the colon of a key. -/
def strayColon (cursor : Cursor) : Bool :=
  match (cursor.skip false true).cursor.rest with
  | ':' :: rest => blankOrEnd rest && !(cursor.skip false true).newLine
  | _ => false

mutual

/--
Reads a node that is indented by more than `indent` columns and begins at the
cursor. Keys and items of sequences may begin here only when `keys` says so.
-/
def readNode : Nat → Int → Bool → Cursor → Option ReadNode
  | 0, _, _, _ => none
  | steps + 1, indent, keys, cursor =>
    match cursor.rest with
    | '!' :: _ =>
      match readTag cursor with
      | none => none
      | some (tag, cursor) =>
        let next := cursor.skip false true
        if next.cursor.atEnd || (next.newLine && (next.cursor.column : Int) ≤ indent) then
          some (.scalar tag false "", next.cursor)
        else readContent steps indent next.newLine tag next.cursor
    | _ => readContent steps indent keys none cursor

/-- Reads a node after its tag. -/
def readContent : Nat → Int → Bool → Option String → Cursor → Option ReadNode
  | 0, _, _, _, _ => none
  | steps + 1, indent, keys, tag, cursor =>
    if beginsItem cursor.rest then
      if keys then readItems steps cursor.column cursor [] else none
    else match cursor.rest with
      | '|' :: _ =>
        (readBlock true indent cursor.step).map fun scalar =>
          (.scalar tag true (String.ofList scalar.value), scalar.cursor)
      | '>' :: _ =>
        (readBlock false indent cursor.step).map fun scalar =>
          (.scalar tag true (String.ofList scalar.value), scalar.cursor)
      | '[' :: _ | '\x7b' :: _ =>
        match readFlow steps cursor with
        | none => none
        | some (node, cursor) => if strayColon cursor then none else some (node, cursor)
      | _ =>
        match readInline false (indent + 1).toNat tag cursor with
        | none => none
        | some (node, scalar) =>
          match afterColon? scalar with
          | none => if strayColon scalar.cursor then none else some (node, scalar.cursor)
          | some after =>
            if keys && tag.isNone then readValue steps cursor.column node after [] else none

/-- Reads the value of a key and the entries after it; `entries` holds the last one first. -/
def readValue : Nat → Nat → Node → Cursor → List (Node × Node) → Option ReadNode
  | 0, _, _, _, _ => none
  | steps + 1, column, key, cursor, entries =>
    let next := cursor.skip false true
    let value : Option ReadNode :=
      if next.cursor.atEnd then some (.nothing, next.cursor)
      else if !next.newLine then readNode steps column false next.cursor
      else if column < next.cursor.column then readNode steps column true next.cursor
      else if next.cursor.column = column ∧ beginsItem next.cursor.rest then
        readItems steps column next.cursor []
      else some (.nothing, next.cursor)
    match value with
    | none => none
    | some (value, cursor) => readEntries steps column cursor ((key, value) :: entries)

/-- Reads the entries of a mapping that begin at a column. -/
def readEntries : Nat → Nat → Cursor → List (Node × Node) → Option ReadNode
  | 0, _, _, _ => none
  | steps + 1, column, cursor, entries =>
    let next := (cursor.skip false true).cursor
    if next.atEnd || next.column < column then some (.mapping entries.reverse, next)
    else if column < next.column || beginsItem next.rest then none
    else
      match readInline false (column + 1) none next with
      | none => none
      | some (key, scalar) =>
        match afterColon? scalar with
        | none => none
        | some after => readValue steps column key after entries

/-- Reads the items of a sequence that begin at a column; `items` holds the last one first. -/
def readItems : Nat → Nat → Cursor → List Node → Option ReadNode
  | 0, _, _, _ => none
  | steps + 1, column, cursor, items =>
    let next := cursor.step.skip false false
    let item : Option ReadNode :=
      if next.cursor.atEnd || (next.newLine && next.cursor.column ≤ column) then
        some (.nothing, next.cursor)
      else readNode steps column true next.cursor
    match item with
    | none => none
    | some (item, cursor) =>
      let next := (cursor.skip false true).cursor
      let items := item :: items
      if next.atEnd || next.column < column then some (.sequence items.reverse, next)
      else if column < next.column then none
      else if beginsItem next.rest then readItems steps column next items
      else some (.sequence items.reverse, next)

end

/-- Whether a document may hold a character. -/
def isAllowed (c : Char) : Bool :=
  let code := c.toNat
  code == 0x09 || code == 0x0a || code == 0x0d || (0x20 ≤ code && code ≤ 0x7e) || code == 0x85 ||
    (0xa0 ≤ code && code ≤ 0xfffd && code != 0xfeff) || 0x10000 ≤ code

/-- All line breaks as line feeds. -/
def normalizeBreaks : List Char → List Char
  | [] => []
  | '\r' :: '\n' :: rest => '\n' :: normalizeBreaks rest
  | c :: rest => (if c = '\r' then '\n' else c) :: normalizeBreaks rest

/-- Whether a line marks the start or the end of a document. -/
def isMarker (line : String) : Bool :=
  let chars := line.toList
  (chars.take 3 == ['-', '-', '-'] || chars.take 3 == ['.', '.', '.']) &&
    blankOrEnd (chars.drop 3)

/-- The first document of a text: its content, and whether a marker opens it. -/
def firstDocument (text : String) : Bool × List Char :=
  let lines := text.splitOn "\n"
  let isVoid (line : String) : Bool :=
    let start := line.toList.dropWhile (· == ' ')
    start.isEmpty || start.head? == some '#'
  let body := lines.dropWhile isVoid
  match body with
  | first :: rest =>
    if isMarker first then
      (true, ("   ".toList ++ first.toList.drop 3) ++
        (if rest.isEmpty then []
         else '\n' :: ("\n".intercalate (rest.takeWhile (!isMarker ·))).toList))
    else (false, ("\n".intercalate (body.takeWhile (!isMarker ·))).toList)
  | [] => (false, [])

/-- Reads the first document of a text. -/
def read? (text : String) : Option Node :=
  let chars := normalizeBreaks text.toList
  let chars := match chars with
    | c :: rest => if c.toNat = 0xfeff then rest else c :: rest
    | [] => []
  if !chars.all isAllowed then none
  else
    let (marked, content) := firstDocument (String.ofList chars)
    let start := (Cursor.mk content 0).skip false marked
    if start.cursor.atEnd then if marked then some .nothing else none
    else
      match readNode (6 * content.length + 8) (-1) (!marked || start.newLine) start.cursor with
      | none => none
      | some (node, cursor) => if (cursor.skip false true).cursor.atEnd then some node else none

end Lehce.Yaml
