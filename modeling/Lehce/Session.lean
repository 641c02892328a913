import Lehce.Evaluation
import Lehce.Text.Space
import Lehce.Text.Utf8

/-!
# Sessions

A session takes blocks of a program one after the other. Each block is evaluated
after all blocks accepted before it, from the start, and only what it adds is shown:
the part of the output past what was shown before, and the value on top of the stack
when the stack has grown. A block that fails is dropped. A session ends when a block
crashes it.
-/

namespace Lehce

/-- The state of a session. -/
structure Session where
  history : List String := []
  shown : Nat := 0
  depth : Nat := 0
  deriving Repr, DecidableEq

/-- What a session answers to a block. -/
inductive SessionReply where
  | shown (text : String)
  | refused (text : String)
  | crashed (crash : Crash) (shown : String)
  deriving Repr, DecidableEq

namespace Session

/-- The source text of the accepted blocks and one more. -/
def sourceWith (session : Session) (block : String) : String :=
  "\n".intercalate (session.history ++ [block])

/-- A text without the line breaks at its end. -/
def trimLineEnds (text : String) : String :=
  String.ofList ((text.toList.reverse.dropWhile (· == '\n')).reverse)

/-- How a failure is told: a fault with its place in the source text. -/
def failureText (source span : String) (failure : Failure) : String :=
  match failure.fault? with
  | some fault => trimLineEnds (fault.pretty source)
  | none => failure.text span

/-- The part of an output past its first bytes. -/
def outputPast (bytes : Nat) (output : String) : String :=
  Text.ofBytes (output.toUTF8.toList.drop bytes)

/-- Evaluates a block and answers with what it adds. -/
def eval (session : Session) (settings : Settings) (span block : String) :
    SessionReply × Session :=
  let source := session.sourceWith block
  match settings.evaluate source [] with
  | .error crashed => (.crashed crashed.crash "", session)
  | .ok evaluation =>
    match evaluation.failure with
    | some failure => (.refused (failureText source span failure), session)
    | none =>
      let size := evaluation.output.utf8ByteSize
      let added := if session.shown < size then outputPast session.shown evaluation.output else ""
      let accepted : Session :=
        { history := session.history ++ [block]
          shown := max session.shown size
          depth := evaluation.stack.length }
      if session.depth < accepted.depth then
        match evaluation.heap.datum evaluation.top with
        | some top => (.shown (added ++ (top.quoted ++ "\n")), accepted)
        | none => (.crashed .endless added, accepted)
      else (.shown added, accepted)

end Session

/-- Whether a line opens an indented block. -/
def opensBlock (line : String) : Bool := (Text.trim line).endsWith ":"

end Lehce
