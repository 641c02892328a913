import Lehce.Evaluation

/-!
# Cases

A case is a program and what its evaluation must come to. Each expectation that is
not met is a mismatch; a case that is skipped has none and does not pass. A mismatch
shows what was got, so it cannot be told of a value without an end.
-/

namespace Lehce

/-- What an evaluation must come to; what is not set is not checked. -/
structure Expectation where
  top : Option Datum := none
  stack : Option (List Datum) := none
  memory : List (String × Datum) := []
  output : Option String := none
  error : String := ""
  line : Option Int := none
  column : Option Int := none
  deriving Inhabited

/-- A program with its input and its expectation; a reason to skip it may be given. -/
structure Case where
  name : String := ""
  source : String := ""
  input : String := ""
  skip : String := ""
  expect : Expectation := {}
  deriving Inhabited

/-- An expectation that is not met. -/
inductive Mismatch where
  | unexpectedError (text : String)
  | unknownKind (name : String)
  | otherError (text : Option String) (want : Fault.Kind)
  | kind (got want : Fault.Kind)
  | line (got want : Int)
  | column (got want : Int)
  | top (got want : Datum)
  | stack (got want : List Datum)
  | undefined (name : String)
  | memory (name : String) (got want : Datum)
  | output (got want : String)

/-- The text of a list of data. -/
def dataText (data : List Datum) : String := (Datum.list data).quoted

/-- The text of a mismatch. -/
def Mismatch.message : Mismatch → String
  | unexpectedError text => "unexpected error: " ++ text
  | unknownKind name => "unknown error kind " ++ name
  | otherError text want => "error: got " ++ text.getD "<nil>" ++ ", want " ++ want.name
  | kind got want => "error: got " ++ got.name ++ ", want " ++ want.name
  | line got want => "error line: got " ++ toString got ++ ", want " ++ toString want
  | column got want => "error column: got " ++ toString got ++ ", want " ++ toString want
  | top got want => "top: got " ++ got.quoted ++ ", want " ++ want.quoted
  | stack got want => "stack: got " ++ dataText got ++ ", want " ++ dataText want
  | undefined name => "memory: " ++ name ++ " not defined"
  | memory name got want =>
    "memory " ++ name ++ ": got " ++ got.quoted ++ ", want " ++ want.quoted
  | output got want => "output: got " ++ Text.quote got ++ ", want " ++ Text.quote want

namespace Evaluation

/-- Whether a value of an evaluation is equal to a datum, to which there is always an end. -/
def agrees (evaluation : Evaluation) (value : Value) (want : Datum) : Bool :=
  let (other, heap) := evaluation.heap.store want
  heap.equal value other == some true

/-- Whether the stack of an evaluation is equal to some data. -/
def stackAgrees (evaluation : Evaluation) (want : List Datum) : Bool :=
  evaluation.stack.length == want.length &&
    (evaluation.stack.zip want).all fun (value, datum) => evaluation.agrees value datum

/-- The mismatches of the failure of an evaluation with an expected kind of fault. -/
def checkFailure (evaluation : Evaluation) (span : String) (expect : Expectation) :
    List Mismatch :=
  match Fault.Kind.ofName? expect.error with
  | none => [.unknownKind expect.error]
  | some want =>
    match evaluation.failure with
    | none => [.otherError none want]
    | some failure =>
      match failure.fault? with
      | none => [.otherError (some (failure.text span)) want]
      | some fault =>
        let differs (got : Int) (want : Option Int) (mismatch : Int → Int → Mismatch) :=
          match want with
          | some want => if got = want then [] else [mismatch got want]
          | none => []
        (if fault.kind = want then [] else [.kind fault.kind want]) ++
          differs fault.line expect.line .line ++ differs fault.column expect.column .column

/-- The mismatches of what an evaluation left behind, if there is an end to each of them. -/
def checkState (evaluation : Evaluation) (expect : Expectation) : Option (List Mismatch) := do
  let top ← match expect.top with
    | some want =>
      if evaluation.agrees evaluation.top want then pure []
      else pure [.top (← evaluation.heap.datum evaluation.top) want]
    | none => pure []
  let stack ← match expect.stack with
    | some want =>
      if evaluation.stackAgrees want then pure []
      else pure [.stack (← evaluation.stackData) want]
    | none => pure []
  let memory ← expect.memory.mapM fun (name, want) =>
    match evaluation.memory.lookup name with
    | none => some [.undefined name]
    | some value =>
      if evaluation.agrees value want then some []
      else (evaluation.heap.datum value).map fun got => [.memory name got want]
  let output := match expect.output with
    | some want => if evaluation.output = want then [] else [.output evaluation.output want]
    | none => []
  return top ++ stack ++ memory.flatten ++ output

/-- All mismatches of an evaluation. An error that was not expected is the only one. -/
def check (evaluation : Evaluation) (span : String) (expect : Expectation) :
    Option (List Mismatch) :=
  if expect.error ≠ "" then
    (evaluation.checkState expect).map (evaluation.checkFailure span expect ++ ·)
  else match evaluation.failure with
    | some failure => some [.unexpectedError (failure.text span)]
    | none => evaluation.checkState expect

end Evaluation

/-- What a case came to. -/
structure CaseOutcome where
  name : String
  skipped : Bool := false
  mismatches : List Mismatch := []

/-- Whether a case was run and met its expectation. -/
def CaseOutcome.passed (outcome : CaseOutcome) : Bool :=
  !outcome.skipped && outcome.mismatches.isEmpty

/-- Runs a case, unless it is to be skipped. -/
def Case.run (settings : Settings) (span : String) (case : Case) : Except Crash CaseOutcome :=
  if case.skip ≠ "" then .ok { name := case.name, skipped := true }
  else match settings.evaluate case.source case.input.toList with
    | .error crashed => .error crashed.crash
    | .ok evaluation =>
      match evaluation.check span case.expect with
      | some mismatches => .ok { name := case.name, mismatches }
      | none => .error .endless

/-- The counts of some outcomes. -/
def outcomeCounts (outcomes : List CaseOutcome) : String :=
  let count (p : CaseOutcome → Bool) : String := toString (outcomes.filter p).length
  "total " ++ toString outcomes.length ++ ", passed " ++ count (·.passed) ++ ", failed " ++
    count (fun outcome => !outcome.skipped && !outcome.passed) ++ ", skipped " ++ count (·.skipped)

end Lehce
