import Lehce.Fault
import Lehce.Program.Node
import Lehce.Token.Basic

/-!
# The tokens ahead

What a reader of programs sees: the tokens not yet read, the indentation of the
line they are on, and where the last token that is no blank ended. Blanks never
matter to the reader; line breaks matter except between brackets.
-/

namespace Lehce

namespace Token

/-- Where a token starts. -/
def position (token : Token) : Position := ⟨token.line, token.start⟩

/-- Whether a token is this operator. -/
def isOperator (token : Token) (op : Operator) : Bool :=
  match token.kind with
  | .operator mark => mark == op
  | _ => false

/-- Whether a token is this keyword. -/
def isKeyword (token : Token) (keyword : Keyword) : Bool :=
  match token.kind with
  | .keyword word => word == keyword
  | _ => false

end Token

/-- A fault at a position with a detail. -/
def Fault.detailed (kind : Fault.Kind) (position : Position) (detail : String) : Fault :=
  ⟨kind, position.line, position.column, detail⟩

/-- A fault at a position without a detail. -/
def Fault.located (kind : Fault.Kind) (position : Position) : Fault := .detailed kind position ""

/-- The tokens ahead of a reader, and what it remembers of those behind it. -/
structure Stream where
  rest : List Token
  lineIndent : Int := 0
  lastEnd : Position := ⟨0, 0⟩

namespace Stream

/--
Drops the blanks at the front, and the line breaks too between brackets. A line
break, or a blank in the first column, tells the indentation of its line.
-/
def dropBlanks (bracketed : Bool) : List Token → Int → Position → Stream
  | [], indent, lastEnd => ⟨[], indent, lastEnd⟩
  | token :: rest, indent, lastEnd =>
    match token.kind with
    | .blank width => dropBlanks bracketed rest (if token.start = 0 then width else indent) lastEnd
    | .newline width =>
      if bracketed then dropBlanks bracketed rest width lastEnd
      else ⟨token :: rest, indent, lastEnd⟩
    | _ => ⟨token :: rest, indent, lastEnd⟩

/-- The stream without the blanks at its front. -/
def skip (bracketed : Bool) (stream : Stream) : Stream :=
  dropBlanks bracketed stream.rest stream.lineIndent stream.lastEnd

/-- The next token, if there is one, and the stream after it. A line break counts as a token. -/
def next? (bracketed : Bool) (stream : Stream) : Option (Token × Stream) :=
  let ahead := stream.skip bracketed
  match ahead.rest with
  | [] => none
  | token :: rest =>
    match token.kind with
    | .newline width => some (token, ⟨rest, width, ahead.lastEnd⟩)
    | _ => some (token, ⟨rest, ahead.lineIndent, ⟨token.line, token.stop⟩⟩)

/-- The stream after the next token, when that is the operator. -/
def accept? (bracketed : Bool) (op : Operator) (stream : Stream) : Option Stream :=
  match stream.next? bracketed with
  | some (token, after) => if token.isOperator op then some after else none
  | none => none

/-- Whether the next token is the operator. -/
def isAt (bracketed : Bool) (op : Operator) (stream : Stream) : Bool :=
  (stream.accept? bracketed op).isSome

/-- The stream after the next token, when that is the keyword. -/
def acceptKeyword? (bracketed : Bool) (keyword : Keyword) (stream : Stream) : Option Stream :=
  match stream.next? bracketed with
  | some (token, after) => if token.isKeyword keyword then some after else none
  | none => none

/-- Whether nothing is left on the current line. -/
def atLineEnd (stream : Stream) : Bool :=
  match (stream.skip false).rest with
  | [] => true
  | token :: _ =>
    match token.kind with
    | .newline _ => true
    | _ => false

/-- The position of the next token; at the end of a line, the end of the last token. -/
def here (bracketed : Bool) (stream : Stream) : Position :=
  let ahead := stream.skip bracketed
  match ahead.rest with
  | [] => ahead.lastEnd
  | token :: _ =>
    match token.kind with
    | .newline _ => ahead.lastEnd
    | _ => token.position

/-- A fault at the next token. -/
def faultHere (bracketed : Bool) (stream : Stream) (kind : Fault.Kind) : Fault :=
  .located kind (stream.here bracketed)

/-- The first token of the next line that has one, its line's indentation, and the stream there. -/
def nextLine? (stream : Stream) : Option (Token × Int × Stream) :=
  let ahead := stream.skip true
  match ahead.rest with
  | [] => none
  | token :: _ => some (token, ahead.lineIndent, ahead)

end Stream

end Lehce
