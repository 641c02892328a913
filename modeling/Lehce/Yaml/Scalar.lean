import Lehce.Yaml.Node

/-!
# YAML scalars

Where a reader of a document stands, how it gets from one piece to the next, and how
it reads the scalars: plain ones end at an indicator and go on over lines that are
indented enough, quoted ones go on to the closing quote, and literal blocks keep
their lines. Lines of plain and quoted scalars are folded: one line break is a
blank, and further ones are kept.
-/

namespace Lehce.Yaml

/-- Where a reader stands: the characters to come and the column. -/
structure Cursor where
  rest : List Char
  column : Nat

namespace Cursor

/-- The cursor after the next character. -/
def step (cursor : Cursor) : Cursor :=
  match cursor.rest with
  | [] => cursor
  | c :: rest => ⟨rest, if c = '\n' then 0 else cursor.column + 1⟩

/-- Whether nothing comes. -/
def atEnd (cursor : Cursor) : Bool := cursor.rest.isEmpty

end Cursor

/-- Whether characters begin with a blank, a line break or the end. -/
def blankOrEnd : List Char → Bool
  | [] => true
  | c :: _ => c == ' ' || c == '\t' || c == '\n'

/-- A cursor at the next piece of a document, and whether a line break was passed. -/
structure Skipped where
  cursor : Cursor
  newLine : Bool

/--
Passes over blanks, comments and line breaks. Tabulators are blanks inside a flow
and after other pieces of the same line only.
-/
def skip (inFlow : Bool) : List Char → Nat → Bool → Bool → Skipped
  | [], column, _, newLine => ⟨⟨[], column⟩, newLine⟩
  | c :: rest, column, tabs, newLine =>
    if c = ' ' ∨ (c = '\t' ∧ tabs) then skip inFlow rest (column + 1) tabs newLine
    else if c = '\n' then skip inFlow rest 0 inFlow true
    else if c = '#' then skipComment rest column tabs newLine
    else ⟨⟨c :: rest, column⟩, newLine⟩
where
  /-- Passes over a comment. -/
  skipComment : List Char → Nat → Bool → Bool → Skipped
    | [], column, _, newLine => ⟨⟨[], column⟩, newLine⟩
    | c :: rest, column, tabs, newLine =>
      if c = '\n' then skip inFlow rest 0 inFlow true
      else skipComment rest (column + 1) tabs newLine

/-- Passes to the next piece. -/
def Cursor.skip (cursor : Cursor) (inFlow tabs : Bool) : Skipped :=
  Yaml.skip inFlow cursor.rest cursor.column tabs false

/-- White space between two parts of a scalar. -/
structure Gap where
  blanks : List Char := []
  breaks : Nat := 0
  cursor : Cursor

/-- Reads white space; `blanks` holds the last one first. -/
def readGap : List Char → Nat → List Char → Nat → Gap
  | [], column, blanks, breaks => ⟨blanks.reverse, breaks, ⟨[], column⟩⟩
  | c :: rest, column, blanks, breaks =>
    if c = '\n' then readGap rest 0 [] (breaks + 1)
    else if c = ' ' ∨ c = '\t' then
      readGap rest (column + 1) (if breaks = 0 then c :: blanks else blanks) breaks
    else ⟨blanks.reverse, breaks, ⟨c :: rest, column⟩⟩

/-- What white space inside a scalar stands for. -/
def Gap.folded (gap : Gap) : List Char :=
  match gap.breaks with
  | 0 => gap.blanks
  | 1 => [' ']
  | breaks + 2 => List.replicate (breaks + 1) '\n'

/-- A scalar that was read, and whether a line break was passed. -/
structure ReadScalar where
  value : List Char
  newLine : Bool
  cursor : Cursor

/-- The characters that end a plain scalar inside a flow. -/
def flowIndicators : List Char := [',', '?', '[', ']', '\x7b', '\x7d']

/-- Whether a plain scalar ends before these characters. -/
def endsPlain (inFlow : Bool) : List Char → Bool
  | [] => true
  | c :: rest => (c == ':' && blankOrEnd rest) || (inFlow && flowIndicators.contains c)

/-- The characters of a plain scalar up to white space or its end. -/
def plainRun (inFlow : Bool) : List Char → Nat → List Char → List Char × Cursor
  | [], column, run => (run.reverse, ⟨[], column⟩)
  | c :: rest, column, run =>
    if blankOrEnd [c] || endsPlain inFlow (c :: rest) then (run.reverse, ⟨c :: rest, column⟩)
    else plainRun inFlow rest (column + 1) (c :: run)

/--
Reads a plain scalar. It goes on over line breaks as long as the next line is
indented by at least `indent` columns, and ends before a comment.
-/
def readPlain (inFlow : Bool) (indent : Nat) : Nat → Cursor → List Char → Bool → ReadScalar
  | 0, cursor, value, newLine => ⟨value, newLine, cursor⟩
  | steps + 1, cursor, value, newLine =>
    let (run, after) := plainRun inFlow cursor.rest cursor.column []
    let value := value ++ run
    let gap := readGap after.rest after.column [] 0
    let newLine := newLine || gap.breaks != 0
    let stopped : Bool := match gap.cursor.rest with
      | [] => true
      | c :: rest =>
        (gap.blanks.isEmpty && gap.breaks == 0) || c == '#' ||
          (!inFlow && gap.breaks != 0 && gap.cursor.column < indent) ||
          endsPlain inFlow (c :: rest)
    if stopped then ⟨value, newLine, gap.cursor⟩
    else readPlain inFlow indent steps gap.cursor (value ++ gap.folded) newLine

/-- The characters that cannot begin a plain scalar. -/
def indicators : List Char :=
  ['-', '?', ':', ',', '[', ']', '\x7b', '\x7d', '#', '&', '*', '!', '|', '>', '\'', '"', '%',
    '@', Char.ofNat 0x60]

/-- Whether a plain scalar begins with these characters. -/
def beginsPlain (inFlow : Bool) : List Char → Bool
  | [] => false
  | c :: rest =>
    (!blankOrEnd [c] && !indicators.contains c) ||
      (c == '-' && !(rest.headD ' ' == ' ' || rest.headD ' ' == '\t')) ||
      (!inFlow && (c == '?' || c == ':') && !blankOrEnd rest)

/-- Reads a scalar in single quotes, after the opening one. -/
def readSingle : Nat → Cursor → List Char → Bool → Option ReadScalar
  | 0, _, _, _ => none
  | steps + 1, cursor, value, newLine =>
    match cursor.rest with
    | [] => none
    | '\'' :: '\'' :: rest =>
      readSingle steps ⟨rest, cursor.column + 2⟩ (value ++ ['\'']) newLine
    | '\'' :: rest => some ⟨value, newLine, ⟨rest, cursor.column + 1⟩⟩
    | c :: rest =>
      if blankOrEnd [c] then
        let gap := readGap cursor.rest cursor.column [] 0
        readSingle steps gap.cursor (value ++ gap.folded) (newLine || gap.breaks != 0)
      else readSingle steps ⟨rest, cursor.column + 1⟩ (value ++ [c]) newLine

/-- The characters that escapes stand for. -/
def escapes : List (Char × Char) := [
  ('0', '\x00'), ('a', '\x07'), ('b', '\x08'), ('t', '\t'), ('\t', '\t'), ('n', '\n'),
  ('v', '\x0b'), ('f', '\x0c'), ('r', '\r'), ('e', '\x1b'), (' ', ' '), ('"', '"'),
  ('\'', '\''), ('/', '/'), ('\\', '\\'), ('N', Char.ofNat 0x85), ('_', Char.ofNat 0xa0),
  ('L', Char.ofNat 0x2028), ('P', Char.ofNat 0x2029)]

/-- How many digits follow an escape that gives a code point. -/
def codeLength : Char → Option Nat
  | 'x' => some 2
  | 'u' => some 4
  | 'U' => some 8
  | _ => none

/-- Reads a scalar in double quotes, after the opening one. -/
def readDouble : Nat → Cursor → List Char → Bool → Option ReadScalar
  | 0, _, _, _ => none
  | steps + 1, cursor, value, newLine =>
    match cursor.rest with
    | [] => none
    | '"' :: rest => some ⟨value, newLine, ⟨rest, cursor.column + 1⟩⟩
    | '\\' :: '\n' :: rest =>
      let gap := readGap rest 0 [] 0
      let kept := List.replicate gap.breaks '\n'
      let kept := if gap.breaks = 0 then [] else kept
      readDouble steps gap.cursor (value ++ kept) true
    | '\\' :: c :: rest =>
      match escapes.lookup c with
      | some meant => readDouble steps ⟨rest, cursor.column + 2⟩ (value ++ [meant]) newLine
      | none =>
        match codeLength c with
        | none => none
        | some length =>
          let digits := rest.take length
          match Number.positionalValue? 16 digits with
          | some code =>
            if digits.length = length ∧ (code < 0xd800 ∨ 0xdfff < code) ∧ code ≤ 0x10ffff then
              readDouble steps ⟨rest.drop length, cursor.column + 2 + length⟩
                (value ++ [Char.ofNat code]) newLine
            else none
          | none => none
    | c :: rest =>
      if blankOrEnd [c] then
        let gap := readGap cursor.rest cursor.column [] 0
        readDouble steps gap.cursor (value ++ gap.folded) (newLine || gap.breaks != 0)
      else readDouble steps ⟨rest, cursor.column + 1⟩ (value ++ [c]) newLine

/-- What becomes of the line breaks at the end of a block. -/
inductive Chomping where
  | strip
  | clip
  | keep
  deriving DecidableEq

/-- The header of a block: what becomes of its last line breaks, and its indentation if given. -/
structure BlockHeader where
  chomping : Chomping := .clip
  increment : Option Nat := none
  cursor : Cursor

/-- Reads the signs and digits of a header. -/
def readHeaderMarks (cursor : Cursor) : Option BlockHeader :=
  let chomp? (c : Char) : Option Chomping :=
    if c = '+' then some .keep else if c = '-' then some .strip else none
  let digit? (c : Char) : Option Nat :=
    if '1' ≤ c ∧ c ≤ '9' then some (c.toNat - '0'.toNat) else none
  match cursor.rest with
  | a :: b :: _ =>
    match chomp? a, digit? b with
    | some chomping, some n => some { chomping, increment := some n, cursor := cursor.step.step }
    | some chomping, none => some { chomping, cursor := cursor.step }
    | none, _ =>
      match digit? a, chomp? b with
      | some n, some chomping => some { chomping, increment := some n, cursor := cursor.step.step }
      | some n, none => some { increment := some n, cursor := cursor.step }
      | none, _ => if a = '0' then none else some { cursor }
  | [a] =>
    match chomp? a, digit? a with
    | some chomping, _ => some { chomping, cursor := cursor.step }
    | none, some n => some { increment := some n, cursor := cursor.step }
    | none, none => some { cursor }
  | [] => some { cursor }

/-- Reads a header to the end of its line. -/
def readHeader (cursor : Cursor) : Option BlockHeader := do
  let header ← readHeaderMarks cursor
  let blanks := header.cursor.rest.takeWhile fun c => c == ' ' || c == '\t'
  let rest := header.cursor.rest.drop blanks.length
  let rest := if rest.head? == some '#' then rest.dropWhile (· != '\n') else rest
  match rest with
  | [] => some { header with cursor := ⟨[], 0⟩ }
  | '\n' :: rest => some { header with cursor := ⟨rest, 0⟩ }
  | _ => none

/-- The empty lines before a line of a block, and where that line begins. -/
structure Breaks where
  count : Nat
  widest : Nat
  cursor : Cursor

/-- Passes over indentation, up to `indent` columns if these are known, and over empty lines. -/
def readBreaks (indent : Option Nat) : List Char → Nat → Nat → Nat → Option Breaks
  | [], column, count, widest => some ⟨count, max widest column, ⟨[], column⟩⟩
  | c :: rest, column, count, widest =>
    let inside : Bool := match indent with
      | none => true
      | some indent => column < indent
    if c = ' ' ∧ inside then readBreaks indent rest (column + 1) count widest
    else if c = '\t' ∧ inside then none
    else if c = '\n' then readBreaks indent rest 0 (count + 1) (max widest column)
    else some ⟨count, max widest column, ⟨c :: rest, column⟩⟩

/-- What a block has so far. -/
structure BlockText where
  value : List Char := []
  lineBreak : Bool := false
  emptyLines : Nat := 0
  leadingBlank : Bool := false

/-- Adds the line breaks between the last line and the next one. -/
def BlockText.join (block : BlockText) (literal nextBlank : Bool) : List Char :=
  let empties := List.replicate block.emptyLines '\n'
  if !literal && !block.leadingBlank && !nextBlank && block.lineBreak then
    block.value ++ (if block.emptyLines = 0 then [' '] else []) ++ empties
  else block.value ++ (if block.lineBreak then ['\n'] else []) ++ empties

/-- Reads the lines of a block that have its indentation. -/
def readLines (literal : Bool) (indent : Nat) :
    Nat → Cursor → BlockText → Option (BlockText × Cursor)
  | 0, _, _ => none
  | steps + 1, cursor, block =>
    if cursor.column ≠ indent ∨ cursor.atEnd then some (block, cursor)
    else
      let blank : Bool := match cursor.rest with
        | c :: _ => c == ' ' || c == '\t'
        | [] => false
      let line := cursor.rest.takeWhile (· != '\n')
      let rest := cursor.rest.dropWhile (· != '\n')
      let value := block.join literal blank ++ line
      match rest with
      | [] => some ({ value }, ⟨[], indent + line.length⟩)
      | _ :: rest =>
        match readBreaks (some indent) rest 0 0 0 with
        | none => none
        | some breaks =>
          readLines literal indent steps breaks.cursor
            { value, lineBreak := true, emptyLines := breaks.count, leadingBlank := blank }

/-- Reads a block, after its mark, inside something indented by `parent` columns. -/
def readBlock (literal : Bool) (parent : Int) (cursor : Cursor) : Option ReadScalar := do
  let header ← readHeader cursor
  let given := header.increment.map fun n => (max parent 0).toNat + n
  let breaks ← readBreaks given header.cursor.rest 0 0 0
  let indent := given.getD (max breaks.widest (max (parent + 1) 1).toNat)
  let (block, cursor) ← readLines literal indent (cursor.rest.length + 1) breaks.cursor
    { emptyLines := breaks.count }
  let ending := match header.chomping with
    | .strip => []
    | .clip => if block.lineBreak then ['\n'] else []
    | .keep =>
      (if block.lineBreak then ['\n'] else []) ++ List.replicate block.emptyLines '\n'
  return ⟨block.value ++ ending, true, cursor⟩

end Lehce.Yaml
