import Lehce.Session

/-!
# Consoles

A console gathers the lines that somebody types into blocks and hands each block to a
session. A line that opens an indented block begins a block of several lines, which
an empty line closes; any other line is a block of its own.
-/

namespace Lehce

/-- A session and the lines of the block that is being typed. -/
structure Console where
  session : Session := {}
  pending : List String := []
  deriving Repr, DecidableEq

namespace Console

/-- What to show before the next line. -/
def promptText (console : Console) : String := if console.pending.isEmpty then "> " else ". "

/-- The block that a line completes, or the lines that wait for more. -/
def gather (console : Console) (line : String) : Except (List String) String :=
  let void := (Text.trim line).isEmpty
  let lines := if void then console.pending else console.pending ++ [line]
  if console.pending.isEmpty then
    if void || opensBlock line then .error lines else .ok line
  else if void then .ok ("\n".intercalate lines)
  else .error lines

/-- Takes a line; a block that it completes is answered. -/
def feed (console : Console) (settings : Settings) (span line : String) :
    Option SessionReply × Console :=
  match console.gather line with
  | .error pending => (none, { console with pending })
  | .ok block =>
    let (reply, session) := console.session.eval settings span block
    (some reply, { session, pending := [] })

end Console

end Lehce
