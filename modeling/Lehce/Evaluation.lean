import Lehce.Code.Emission
import Lehce.Code.Listing
import Lehce.Log.Record
import Lehce.Machine.Run
import Lehce.Settings.Basic

/-!
# Evaluations

An evaluation takes a source text from its characters to the end of its run and
keeps what can be observed of it: what was written, what is left on the stack and in
the variables, the first failure, and the log. A run stops at its first fault. Of an
evaluation that crashes only what was written is left.

Compiling and running are two pieces of work with a span each. A failure names the
span it happened in; only the failure to write a listing has none.
-/

namespace Lehce

/-- Why an evaluation failed. -/
inductive Failure where
  | compilation (error : Code.CompileError)
  | listing (error : Code.DecodeError)
  | run (fault : Fault)

namespace Failure

/-- The fault behind a failure, unless it is of another sort. -/
def fault? : Failure → Option Fault
  | compilation (.fault fault) => some fault
  | compilation .missingExpression => none
  | listing _ => none
  | run fault => some fault

/-- What went wrong. -/
def message : Failure → String
  | compilation (.fault fault) => fault.message
  | compilation .missingExpression => "nil expression"
  | listing error => error.message
  | run fault => fault.message

/-- Whether a failure names its span. -/
def spanned : Failure → Bool
  | listing _ => false
  | _ => true

/-- What went wrong and in which span. -/
def text (failure : Failure) (span : String) : String :=
  if failure.spanned then failure.message ++ " (span " ++ span ++ ")" else failure.message

end Failure

/-- What is left of an evaluation that crashed. -/
structure Crashed where
  crash : Crash
  output : String := ""

/-- What can be observed of a program. -/
structure Evaluation where
  unit : Option Code.Unit := none
  listing : String := ""
  output : String := ""
  heap : Heap := {}
  stack : List Value := []
  memory : List (String × Value) := []
  failure : Option Failure := none
  log : List Log.Record := []

namespace Evaluation

/-- Whether the program was compiled. -/
def compiled (evaluation : Evaluation) : Bool := evaluation.unit.isSome

/-- Whether the program ran to its end. -/
def finished (evaluation : Evaluation) : Bool :=
  evaluation.compiled && evaluation.failure.isNone

/-- The topmost value of the stack, the empty one without any. -/
def top (evaluation : Evaluation) : Value := evaluation.stack.getLast?.getD .empty

/-- The values of the stack written out, the topmost one last, if there is an end to them. -/
def stackData (evaluation : Evaluation) : Option (List Datum) :=
  evaluation.stack.mapM evaluation.heap.datum

/-- The variables with their values written out, if there is an end to them. -/
def memoryData (evaluation : Evaluation) : Option (List (String × Datum)) :=
  evaluation.memory.mapM fun (name, value) => do return (name, ← evaluation.heap.datum value)

/-- The text of the stack, if there is an end to it. -/
def stackText (evaluation : Evaluation) : Option String := do
  return "[" ++ ", ".intercalate ((← evaluation.stackData).map Datum.quoted) ++ "]"

/-- The listing of the compiled program, or why there is none. -/
def listingText (evaluation : Evaluation) : String :=
  match evaluation.unit with
  | none => ""
  | some unit =>
    match unit.listing with
    | .ok text => text
    | .error error => error.message

end Evaluation

/-- A compilation with what it logged and listed. -/
structure Compilation where
  result : Except Failure Code.Unit
  listing : String := ""
  log : List Log.Record := []

/-- The record of a span that begins. -/
def Log.Record.newSpan : Log.Record := { level := .debug, message := "new span" }

/-- The record of a fault of a running program. -/
def LoggedFault.record (logged : LoggedFault) : Log.Record where
  level := if logged.stopped then .error else .debug
  message := if logged.stopped then "execution stopped" else "runtime error"
  fields := [("error", logged.fault.message), ("offset", toString logged.offset)]
  spanned := false

namespace Settings

/-- The meaning of native names under some settings. -/
def resolver (settings : Settings) : Code.Resolver := settings.registry.resolve

/-- Compiles a source text and lists the outcome when the settings ask for it. -/
def compile (settings : Settings) (source : String) : Compilation :=
  match Code.compileSource settings.resolver source with
  | .error error =>
    let failure := Failure.compilation error
    { result := .error failure
      log := [.newSpan, { level := .debug, message := "compile failed"
                          fields := [("error", failure.message)] }] }
  | .ok unit =>
    let log : List Log.Record := [.newSpan, {
      level := .debug
      message := "compiled"
      fields := [("opcodes", toString unit.opcodes.size),
        ("storages", toString unit.storages.size),
        ("functions", toString unit.functions.length)] }]
    if settings.listing then
      match unit.listing with
      | .ok listing => { result := .ok unit, listing, log }
      | .error error => { result := .error (.listing error), log }
    else { result := .ok unit, log }

/--
Runs a unit on an input. A unit without a storage has no memory for its top level and is
not run at all; it crashes when the variables are looked at.
-/
def run (settings : Settings) (unit : Code.Unit) (input : List Char) :
    Except Crashed Evaluation :=
  match unit.storages[0]?, unit.freshMemory? with
  | some top, some memory =>
    let setup : Setup := { registry := settings.registry, limits := settings.limits }
    let (ending, run) := unit.run setup memory { input }
    let machine := run.machine
    match ending with
    | .crashed crash => .error { crash, output := machine.host.output }
    | _ =>
      let failure := run.faults.head?.map Failure.run
      let closing : Log.Record := match failure with
        | some failure =>
          { level := .info, message := "run failed", fields := [("error", failure.message)] }
        | none =>
          { level := .debug, message := "run done"
            fields := [("stack", toString machine.stack.size)] }
      .ok {
        unit := some unit
        output := machine.host.output
        heap := machine.host.heap
        stack := machine.stack.toList
        memory := top.values machine.outermost.memory
        failure
        log := .newSpan :: run.log.reverse.map LoggedFault.record ++ [closing] }
  | _, _ => .error { crash := .noStorage }

/-- Compiles and runs a source text. -/
def evaluate (settings : Settings) (source : String) (input : List Char) :
    Except Crashed Evaluation :=
  let compilation := settings.compile source
  match compilation.result with
  | .error failure =>
    .ok { failure := some failure, listing := compilation.listing, log := compilation.log }
  | .ok unit =>
    (settings.run unit input).map fun evaluation =>
      { evaluation with
        listing := compilation.listing
        log := compilation.log ++ evaluation.log }

end Settings

/-- The name under which the result of a program is handed to an inspector. -/
def inspectionTitle : String := "karamel"

end Lehce
