import Lehce.Fault
import Lehce.Token.Numeral

/-!
# Scanning

Cuts a source text into tokens. A cursor is the text not yet read with the line
and column of its first character. One step reads one token, or passes over a
comment, and always moves the cursor forward; scanning repeats it to the end of
the text. Only the last token that is no blank matters to the next step: it
decides whether a colon before a name is a mark or starts an atom.
-/

namespace Lehce.Token

/-- The text not yet read and where it starts. -/
structure Cursor where
  rest : List Char
  line : Nat
  column : Nat

namespace Cursor

/-- The start of a source text. -/
def start (source : String) : Cursor := ⟨source.toList, 0, 0⟩

/-- Passes over `n` characters of the current line. -/
def forward (cursor : Cursor) (n : Nat) : Cursor :=
  ⟨cursor.rest.drop n, cursor.line, cursor.column + n⟩

/-- A fault at the cursor. -/
def fault (cursor : Cursor) (kind : Fault.Kind) (detail : String) : Fault :=
  ⟨kind, cursor.line, cursor.column, detail⟩

/-- The token between an earlier cursor and this one. -/
def token (start stop : Cursor) (kind : Kind) : Token :=
  ⟨stop.line, start.column, stop.column, kind⟩

end Cursor

/-- The width of a tabulator. -/
def tabWidth : Nat := 4

/-- The indentation at the front of a line: its width and its number of characters. -/
def indentation : List Char → Nat × Nat
  | ' ' :: rest => let (width, length) := indentation rest; (width + 1, length + 1)
  | '\t' :: rest => let (width, length) := indentation rest; (width + tabWidth, length + 1)
  | _ => (0, 0)

/--
The blanks at the front of a text: their width and number. A carriage return is a
blank unless it belongs to a line break.
-/
def blanks : List Char → Nat × Nat
  | '\r' :: '\n' :: _ => (0, 0)
  | '\t' :: rest => let (width, length) := blanks rest; (width + tabWidth, length + 1)
  | ' ' :: rest => let (width, length) := blanks rest; (width + 1, length + 1)
  | '\r' :: rest => let (width, length) := blanks rest; (width + 1, length + 1)
  | _ => (0, 0)

/-- How many characters stand before the next line break. -/
def lineLength : List Char → Nat → Nat
  | [], n => n
  | '\n' :: _, n => n
  | '\r' :: '\n' :: _, n => n
  | _ :: rest, n => lineLength rest (n + 1)

/-- Passes over a block comment whose opening mark has been read; fails at the end of the text. -/
def closeComment : List Char → Nat → Nat → Except Cursor Cursor
  | [], line, column => .error ⟨[], line, column⟩
  | '*' :: '/' :: rest, line, column => .ok ⟨rest, line, column + 2⟩
  | '\n' :: rest, line, _ => closeComment rest (line + 1) 0
  | _ :: rest, line, column => closeComment rest line (column + 1)

/-- The character that a backslash and `c` stand for, as it is put into a text. -/
def unescape : Char → List Char
  | 'n' => ['\n']
  | 'r' => ['\r']
  | 't' => ['\t']
  | '\\' => ['\\']
  | '"' => ['"']
  | '\'' => ['\'']
  | c => ['\\', c]

/-- Reads a text up to its closing quote; `content` is what was read, last character first. -/
def closeText (delimiter : Char) :
    List Char → Nat → Nat → List Char → Except Cursor (List Char × Cursor)
  | [], line, column, _ => .error ⟨[], line, column⟩
  | '\\' :: rest, line, column, content =>
    match rest with
    | [] => .error ⟨[], line, column + 1⟩
    | '\n' :: rest => closeText delimiter rest (line + 1) 0 ('\n' :: '\\' :: content)
    | c :: rest =>
      closeText delimiter rest line (column + 2) ((unescape c).reverse ++ content)
  | c :: rest, line, column, content =>
    if c = delimiter then .ok (content.reverse, ⟨rest, line, column + 1⟩)
    else if c = '\n' then closeText delimiter rest (line + 1) 0 (c :: content)
    else closeText delimiter rest line (column + 1) (c :: content)

/-- One step of scanning: the token read, if any, and the cursor after it. -/
structure Step where
  token : Option Token
  next : Cursor

/-- Reads a line break of `length` characters and the indentation after it. -/
def scanNewline (cursor : Cursor) (length : Nat) : Step :=
  let line := cursor.rest.drop length
  let (indent, width) := indentation line
  let next : Cursor := ⟨line.drop width, cursor.line + 1, width⟩
  ⟨some ⟨next.line, 0, next.column, .newline indent⟩, next⟩

/-- Reads a run of blanks. -/
def scanBlanks (cursor : Cursor) : Step :=
  let (width, length) := blanks cursor.rest
  let next := cursor.forward length
  ⟨some (cursor.token next (.blank width)), next⟩

/-- Passes over a block comment. -/
def scanComment (cursor : Cursor) : Except Fault Step :=
  match closeComment (cursor.rest.drop 2) cursor.line (cursor.column + 2) with
  | .ok next => .ok ⟨none, next⟩
  | .error stop => .error (stop.fault .syntaxError "comment not closed")

/-- Reads a word: a keyword or a symbol. -/
def scanWord (cursor : Cursor) : Step :=
  let word := cursor.rest.takeWhile isSymbolPart
  let name := String.ofList word
  let next := cursor.forward word.length
  let kind := match Keyword.ofSpelling? name with
    | some keyword => Kind.keyword keyword
    | none => .symbol name
  ⟨some (cursor.token next kind), next⟩

/-- Reads a text; its token stands on the line where the text starts. -/
def scanText (cursor : Cursor) (delimiter : Char) (rest : List Char) : Except Fault Step :=
  match closeText delimiter rest cursor.line (cursor.column + 1) [] with
  | .ok (content, next) =>
    .ok ⟨some ⟨cursor.line, cursor.column, next.column, .text (String.ofList content)⟩, next⟩
  | .error stop =>
    .error (stop.fault .missingStringDelimiter ("missing " ++ delimiter.toString))

/-- Reads a numeric literal. -/
def scanNumeral (cursor : Cursor) : Except Fault Step :=
  match numeral cursor.rest with
  | .ok literal =>
    let next : Cursor := ⟨literal.rest, cursor.line, cursor.column + literal.length⟩
    .ok ⟨some (cursor.token next literal.kind), next⟩
  | .error (reason, length) => .error ((cursor.forward length).fault .syntaxError reason.detail)

/-- Reads an operator of `length` characters. -/
def scanOperator (cursor : Cursor) (operator : Operator) (length : Nat) : Step :=
  let next := cursor.forward length
  ⟨some (cursor.token next (.operator operator)), next⟩

/-- Reads an atom: a colon and a name. -/
def scanAtom (cursor : Cursor) (rest : List Char) : Step :=
  let word := rest.takeWhile isSymbolPart
  let next := cursor.forward (word.length + 1)
  ⟨some (cursor.token next (.atom (String.ofList word))), next⟩

/-- Reads an operator, a mark or an atom, given whether a colon is a mark here. -/
def scanMark (colonAllowed : Bool) (cursor : Cursor) (c : Char) (rest : List Char) :
    Except Fault Step :=
  let following := rest.head?
  if c = ':' ∧ colonAllowed = false ∧ following.any isSymbolStart then .ok (scanAtom cursor rest)
  else match following.bind (Operator.ofPair? c) with
    | some operator => .ok (scanOperator cursor operator 2)
    | none =>
      match Operator.ofChar? c with
      | some operator => .ok (scanOperator cursor operator 1)
      | none => .error (cursor.fault .syntaxError ("unexpected " ++ Text.quoteChar c))

/-- Reads the next token, or passes over a comment, at a cursor whose first character is `c`. -/
def scanStep (colonAllowed : Bool) (cursor : Cursor) (c : Char) (rest : List Char) :
    Except Fault Step :=
  let following := rest.head?
  if c = '\n' then .ok (scanNewline cursor 1)
  else if c = '\r' ∧ following = some '\n' then .ok (scanNewline cursor 2)
  else if c = ' ' ∨ c = '\t' ∨ c = '\r' then .ok (scanBlanks cursor)
  else if c = '/' ∧ following = some '/' then
    .ok ⟨none, cursor.forward (lineLength cursor.rest 0)⟩
  else if c = '/' ∧ following = some '*' then scanComment cursor
  else if isSymbolStart c then .ok (scanWord cursor)
  else if c = '"' ∨ c = '\'' then scanText cursor c rest
  else if startsNumeral cursor.rest then scanNumeral cursor
  else scanMark colonAllowed cursor c rest

/-- Whether a colon is a mark after the tokens read so far, the last of which comes first. -/
def colonAllowed : List Token → Bool
  | [] => false
  | ⟨_, _, _, .blank _⟩ :: earlier => colonAllowed earlier
  | token :: _ => token.kind.allowsColon

/--
Scans to the end of the text, adding to the tokens read so far, the last of which
comes first. Every step reads at least one character, so as many steps as there
are characters are enough.
-/
def scanFrom : Nat → Cursor → List Token → Except Fault (List Token)
  | 0, _, tokens => .ok tokens.reverse
  | steps + 1, cursor, tokens =>
    match cursor.rest with
    | [] => .ok tokens.reverse
    | c :: rest => do
      let step ← scanStep (colonAllowed tokens) cursor c rest
      scanFrom steps step.next (step.token.toList ++ tokens)

/-- The tokens of a source text. -/
def scan (source : String) : Except Fault (List Token) :=
  let cursor := Cursor.start source
  scanFrom cursor.rest.length cursor []

end Lehce.Token
