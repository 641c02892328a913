import Lehce.CommandLine

/-!
# The program

Looks up what the command line needs of its surroundings, carries it out, and writes
what came of it.
-/

namespace Lehce

/-- The code with which the system refuses to read a directory. -/
def directoryCode : UInt32 := 21

/-- What stands at a path of the file system. -/
def lookUp (path : String) : IO Entry := do
  try
    return .file (← IO.FS.readBinFile path).toList
  catch error =>
    match error with
    | .inappropriateType _ code _ =>
      return if code = directoryCode then .directory else .blocked
    | _ => return .missing

/-- All bytes of a stream. -/
partial def readAll (stream : IO.FS.Stream) (done : ByteArray) : IO ByteArray := do
  let chunk ← stream.read 65536
  if chunk.isEmpty then return done else readAll stream (done ++ chunk)

/-- The directory of the user's own settings. -/
def userSettings : IO (Option String) := do
  match ← IO.getEnv "XDG_CONFIG_HOME" with
  | some directory => if directory.isEmpty then homeSettings else return some directory
  | none => homeSettings
where
  /-- The directory below the user's home. -/
  homeSettings : IO (Option String) := do
    return (← IO.getEnv "HOME").map (· ++ "/.config")

/-- Answers one line after the other until the input ends. -/
partial def converse (settings : Settings) (span : String) (console : Console) : IO UInt32 := do
  let stdout ← IO.getStdout
  stdout.putStr console.promptText
  stdout.flush
  let line ← (← IO.getStdin).getLine
  if line.isEmpty then return 0
  let (reply, console) := console.feed settings span (Session.trimLineEnds line)
  match reply with
  | none => pure ()
  | some (.shown text) => stdout.putStr text
  | some (.refused text) => IO.eprintln text
  | some (.crashed crash text) =>
    stdout.putStr text
    IO.eprintln crash.message
    return 2
  converse settings span console

/-- Writes what a process has done and returns its code. -/
def finish (span : String) (result : ProcessResult) : IO UInt32 := do
  if let some (path, bytes) := result.written then
    IO.FS.writeBinFile path ⟨bytes.toArray⟩
  (← IO.getStdout).putStr result.output
  IO.eprint result.errors
  for record in result.log do
    IO.eprint (record.line span)
  match result.ending with
  | .exited code => return code.toUInt32
  | .crashed crash =>
    IO.eprintln crash.message
    return 2

end Lehce

open Lehce in
/-- Carries out the words of the command line. -/
def main (words : List String) : IO UInt32 := do
  let span := "0"
  let here := toString (← IO.currentDir)
  let start : World :=
    { workingDirectory := here
      homeDirectory := ← IO.getEnv "HOME"
      userDirectory := ← userSettings
      entry := fun _ => .missing
      input := [] }
  let entries ← (pathsOfInterest start words).mapM fun path => do return (path, ← lookUp path)
  let world := { start with entry := fun path => (entries.lookup path).getD .missing }
  match prepare world words with
  | .ended result => finish span result
  | .ready flags settings _ errors =>
    if flags.session && (← (← IO.getStdin).isTty) then
      IO.print flags.printed
      IO.eprint errors
      converse settings span {}
    else
      let input ← readAll (← IO.getStdin) .empty
      finish span (runCommandLine { world with input := input.toList } span words)
