import Lehce.Evaluation
import Lehce.Files
import Lehce.Settings.Override

/-!
# Settings scripts

A settings script is a program that is run for its variables. It cannot read input.
Scripts are run one after the other, and a later one overrides what an earlier one
set; the first that fails ends the matter.
-/

namespace Lehce

/-- A script: where it was found and what is in it, or why it cannot be read. -/
structure Script where
  path : String
  content : Except FileProblem String

/-- Why a script has no effect. -/
inductive ScriptError where
  | unreadable (problem : FileProblem)
  | failed (path : String) (failure : Failure)
  | unfit (path : String) (error : NamedOverrideError)
  | crashed (crash : Crash)

/-- The text of a failed script. -/
def ScriptError.message : ScriptError → String
  | unreadable problem => problem.message
  | failed path failure => "script " ++ path ++ ": " ++ failure.message
  | unfit path error => "script " ++ path ++ ": " ++ error.message
  | crashed crash => crash.message

/-- The settings under which scripts run. -/
def Script.settings : Settings := { disabled := ["io.readline"] }

/-- A run of a script: its variables, and what it has written even when it failed. -/
structure ScriptRun where
  bindings : Except ScriptError Bindings
  output : String := ""

/-- Runs a script. -/
def Script.run (script : Script) : ScriptRun :=
  match script.content with
  | .error problem => { bindings := .error (.unreadable problem) }
  | .ok content =>
    match Script.settings.evaluate content [] with
    | .error crashed =>
      { bindings := .error (.crashed crashed.crash), output := crashed.output }
    | .ok evaluation =>
      match evaluation.failure with
      | some failure =>
        { bindings := .error (.failed script.path failure), output := evaluation.output }
      | none =>
        { bindings := .ok { heap := evaluation.heap, named := evaluation.memory }
          output := evaluation.output }

/-- Overrides settings by scripts, and collects what the scripts have written. -/
def Settings.overrideAll (settings : Settings) : List Script → String × Except ScriptError Settings
  | [] => ("", .ok settings)
  | script :: rest =>
    let run := script.run
    match run.bindings with
    | .error error => (run.output, .error error)
    | .ok bindings =>
      match settings.override bindings with
      | .error error =>
        let error := match error.error with
          | .crash crash => .crashed crash
          | _ => .unfit script.path error
        (run.output, .error error)
      | .ok settings =>
        let (output, result) := settings.overrideAll rest
        (run.output ++ output, result)

end Lehce
