import Lehce.Console
import Lehce.Files
import Lehce.Image.Layout
import Lehce.Settings.Document
import Lehce.Settings.Script

/-!
# The command line

What the words of a command line do, given the files and the input around them. The
flags come first, then the settings scripts and the settings files found in the
working directory, the user's directory and the system's, and then the program: it is
read from a file, from the command line, from an image or from the input; it is
either stored as an image or run.
-/

namespace Lehce

/--
What surrounds a command line: the directory it works in, those of the user and of the
user's settings, the files, and the input.
-/
structure World where
  workingDirectory : String
  homeDirectory : Option String
  userDirectory : Option String
  entry : String → Entry
  input : List UInt8

/-- How a process ends. -/
inductive ProcessEnding where
  | exited (code : Nat)
  | crashed (crash : Crash)
  deriving Repr, DecidableEq

/-- What a process has done. -/
structure ProcessResult where
  ending : ProcessEnding
  output : String := ""
  errors : String := ""
  log : List Log.Record := []
  written : Option (String × List UInt8) := none

/-- The names of settings files. -/
def settingsFileNames : List String := ["karamel.cue", ".karamel.cue"]

/-- The names of settings scripts. -/
def settingsScriptNames : List String := ["karamel.k", ".karamel.k"]

namespace World

/-- The places where settings are looked for, the nearest one first. -/
def directories (world : World) : List String :=
  [world.workingDirectory] ++ world.userDirectory.toList ++ ["/etc"]

/-- All paths at which files with some names could stand. -/
def candidates (world : World) (names : List String) : List String :=
  world.directories.flatMap fun directory => names.map fun name => directory ++ "/" ++ name

/-- The paths at which files with some names stand. -/
def search (world : World) (names : List String) : List String :=
  (world.candidates names).filter fun path => (world.entry path).exists

/-- The text of the file at a path. -/
def readText (world : World) (path : String) : Except FileProblem String :=
  ((world.entry path).read path).map Text.ofBytes

/-- The settings scripts, the nearest one last. -/
def scripts (world : World) : List Script :=
  ((world.search settingsScriptNames).map fun path => ⟨path, world.readText path⟩).reverse

/-- The settings files, the nearest one first, unless one of them is refused. -/
def settingsFiles? (world : World) : Option (List SettingsFile) :=
  (world.search settingsFileNames).mapM fun path =>
    match world.readText path with
    | .ok content => SettingsFile.ofText? content
    | .error _ => none

/-- The record of the settings files that were found. -/
def settingsRecords (world : World) : List Log.Record :=
  match world.search settingsFileNames with
  | [] => []
  | paths =>
    [{ level := .info, message := "config file"
       fields := [("paths", "[" ++ " ".intercalate paths ++ "]")], spanned := false }]

end World

/-- The program of a command line. -/
inductive Origin where
  | image (bytes : List UInt8)
  | source (text : String) (input : List Char)

/-- Where the program comes from. A source text that is read from the input leaves nothing of it. -/
def Flags.origin (flags : Flags) (world : World) : Except FileProblem Origin :=
  let input := (Text.ofBytes world.input).toList
  if flags.imagePath ≠ "" then
    ((world.entry flags.imagePath).read flags.imagePath).map .image
  else if flags.runPath ≠ "" then (world.readText flags.runPath).map fun text => .source text input
  else if flags.source ≠ "" then .ok (.source flags.source input)
  else .ok (.source (Text.ofBytes world.input) [])

/-- How a failure is reported: a fault with its place in the source text. -/
def reportText (source span : String) (failure : Failure) : String :=
  match failure.fault? with
  | some fault => fault.pretty source
  | none => failure.text span ++ "\n"

namespace ProcessResult

/-- A process that ends because something is wrong. -/
def refused (message : String) : ProcessResult := { ending := .exited 1, errors := message ++ "\n" }

/-- A process that has done something else before. -/
def after (result : ProcessResult) (output errors : String) (log : List Log.Record) :
    ProcessResult :=
  { result with
    output := output ++ result.output
    errors := errors ++ result.errors
    log := log ++ result.log }

end ProcessResult

/-- Runs a unit and reports its failure. -/
def Settings.runProcess (settings : Settings) (span source : String) (unit : Code.Unit)
    (input : List Char) : ProcessResult :=
  match settings.run unit input with
  | .error crashed => { ending := .crashed crashed.crash, output := crashed.output }
  | .ok evaluation =>
    match evaluation.failure with
    | none => { ending := .exited 0, output := evaluation.output, log := evaluation.log }
    | some failure =>
      { ending := .exited 1
        output := evaluation.output
        errors := reportText source span failure
        log := evaluation.log }

/-- Stores a unit as an image. -/
def buildProcess (world : World) (path : String) (unit : Code.Unit) : ProcessResult :=
  match Image.save .cbor unit with
  | .error error => .refused error.message
  | .ok bytes =>
    match writeProblem? world.entry path with
    | some problem => .refused problem.message
    | none => { ending := .exited 0, written := some (path, bytes) }

/-- Does with a program what the flags ask for. -/
def Flags.process (flags : Flags) (world : World) (settings : Settings) (span : String) :
    ProcessResult :=
  match flags.origin world with
  | .error problem => .refused problem.message
  | .ok (.image bytes) =>
    match Image.load .cbor settings.resolver bytes with
    | .error error => .refused error.message
    | .ok unit => settings.runProcess span "" unit (Text.ofBytes world.input).toList
  | .ok (.source source input) =>
    let compilation := settings.compile source
    let result : ProcessResult := match compilation.result with
      | .error failure => { ending := .exited 1, errors := reportText source span failure }
      | .ok unit =>
        if flags.buildPath ≠ "" then buildProcess world flags.buildPath unit
        else settings.runProcess span source unit input
    result.after "" compilation.listing compilation.log

/-- What came of the flags, the scripts and the settings files. -/
inductive Preparation where
  | ended (result : ProcessResult)
  | ready (flags : Flags) (settings : Settings) (level : Log.Level) (errors : String)

/-- Carries out the flags and finds the settings. -/
def prepare (world : World) (words : List String) : Preparation :=
  match Flags.table.execute words {} with
  | (.usage, flags) => .ended { ending := .exited 0, output := flags.printed ++ Flags.table.usage }
  | (.failed problem, flags) =>
    .ended ((ProcessResult.refused problem.message).after flags.printed "" [])
  | (.done, flags) =>
    let files := world.settingsFiles?
    let (errors, result) := (Settings.ofSources flags (files.getD [])).overrideAll world.scripts
    match result, files with
    | .error (.crashed crash), _ =>
      .ended { ending := .crashed crash, output := flags.printed, errors }
    | .ok _, none => .ended { ending := .crashed .refusedSettings, output := flags.printed, errors }
    | .error error, _ =>
      .ended ((ProcessResult.refused error.message).after flags.printed errors [])
    | .ok settings, some files => .ready flags settings (.ofSources flags files) errors

/-- What is typed into a console, line by line. A tabulator only rings a bell. -/
def Console.process (settings : Settings) (span : String) :
    List String → Console → ProcessResult → ProcessResult
  | [], _, result => result
  | line :: rest, console, result =>
    let (bells, kept) := line.toList.partition (· = '\t')
    let result := { result with
      output := result.output ++ String.ofList (bells.map fun _ => '\x07') }
    let (reply, console) := console.feed settings span (String.ofList kept)
    match reply with
    | none => process settings span rest console result
    | some (.shown text) =>
      process settings span rest console { result with output := result.output ++ text }
    | some (.refused text) =>
      process settings span rest console { result with errors := result.errors ++ text ++ "\n" }
    | some (.crashed crash text) =>
      { result with ending := .crashed crash, output := result.output ++ text }

/--
The lines that are typed into a console. A carriage return ends a line as well as a
line break does, and so does the end of the input when something stands before it.
-/
def typedLines (text : String) : List String :=
  let lines := (text.map fun c => if c = '\r' then '\n' else c).splitOn "\n"
  if lines.getLast? = some "" then lines.dropLast else lines

/--
The lines to be added to a history whose last line is given: each that is not empty
and differs from the one before it.
-/
def historyLines (last : Option String) : List String → List String
  | [] => []
  | line :: rest =>
    if line.isEmpty ∨ last = some line then historyLines last rest
    else line :: historyLines (some line) rest

/-- The last line of a stored history. -/
def lastHistoryLine (history : String) : Option String :=
  (((history.splitOn "\n").dropLast.map Text.trim).filter (· ≠ "")).getLast?

/-- The name of the file that keeps what was typed into consoles. -/
def historyName : String := ".karamel_history"

/-- The file of typed lines with some more in it, when there is a place for it. -/
def World.historyWith (world : World) (lines : List String) : Option (String × List UInt8) := do
  let path := (← world.homeDirectory) ++ "/" ++ historyName
  let old ← match world.entry path with
    | .file content => some content
    | _ => if (writeProblem? world.entry path).isNone then some [] else none
  let added := historyLines (lastHistoryLine (Text.ofBytes old)) lines
  return (path, old ++ (String.join (added.map (· ++ "\n"))).toUTF8.toList)

/-- Feeds the input to a console and keeps it in the history. -/
def consoleProcess (world : World) (settings : Settings) (span : String) : ProcessResult :=
  let lines := typedLines (Text.ofBytes world.input)
  let kept := lines.map fun line => String.ofList (line.toList.filter (· ≠ '\t'))
  let result := Console.process settings span lines {} { ending := .exited 0 }
  { result with written := world.historyWith kept }

/-- Carries out a command line. -/
def runCommandLine (world : World) (span : String) (words : List String) : ProcessResult :=
  match prepare world words with
  | .ended result => result
  | .ready flags settings level errors =>
    let result :=
      if flags.session then consoleProcess world settings span
      else flags.process world settings span
    let result := result.after flags.printed errors world.settingsRecords
    { result with log := result.log.filter fun record => level.value ≤ record.level.value }

/-- The paths that a command line may look at or write to, whatever stands there. -/
def pathsOfInterest (world : World) (words : List String) : List String :=
  let flags := (Flags.table.execute words {}).2
  world.candidates (settingsFileNames ++ settingsScriptNames) ++
    (world.homeDirectory.map fun home => home ++ "/" ++ historyName).toList ++
    world.homeDirectory.toList ++
    [flags.runPath, flags.imagePath, flags.buildPath, parentPath flags.buildPath].filter (· ≠ "")

end Lehce
