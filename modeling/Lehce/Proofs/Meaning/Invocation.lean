import Lehce.Proofs.Meaning.Activations
import Lehce.Proofs.Meaning.Statements

/-!
# Invocations

A run that calls a function of the program does what the evaluator does when it invokes the
function. The body of a function ends with a return, so a run never leaves it otherwise. The
proof is by induction on the fuel: calls within the body have less of it.
-/

namespace Lehce.Meaning

open Code (Body Instruction Scope Stands assembleStatements pieceCode)

section Flows

variable {α β : Type} {setting : Setting} {place : Meaning.Place} {invoke : Invoke} {fuel : Nat}
  {state after : State} {flow : Flow}

theorem ok_of_bind {first : Eval α} {following : α → Eval β} {value : β}
    (evaluates : (first >>= following) state = .ok value after) :
    ∃ between middle, first state = .ok between middle ∧
      following between middle = .ok value after := by
  change EStateM.bind first following state = _ at evaluates
  unfold EStateM.bind at evaluates
  cases early : first state with
  | ok between middle =>
      rw [early] at evaluates
      exact ⟨between, middle, rfl, evaluates⟩
  | error halt middle =>
      rw [early] at evaluates
      cases evaluates

theorem flow_of_returns {position : Position} {value : Option Node}
    (evaluates : evalStatement setting place invoke fuel (.returns position value) state =
      .ok flow after) : flow ≠ .normal := by
  cases value with
  | none =>
      rw [evalStatement] at evaluates
      cases evaluates
      simp
  | some node =>
      rw [evalStatement] at evaluates
      rcases ok_of_bind evaluates with ⟨result, middle, _, last⟩
      cases last
      simp

/-- Statements of which the last is a return never end normally. -/
theorem flow_ne_normal {body : List Node} (ended : Node.EndsWithReturn body)
    (evaluates : evalStatements setting place invoke fuel body state = .ok flow after) :
    flow ≠ .normal := by
  rcases ended with ⟨front, position, value, rfl⟩
  induction front generalizing state with
  | nil =>
      rw [List.nil_append, evalStatements] at evaluates
      rcases ok_of_bind evaluates with ⟨own, middle, early, late⟩
      have returned := flow_of_returns early
      cases own with
      | normal => exact (returned rfl).elim
      | breaks | continues | returns =>
          cases late
          exact returned
  | cons node rest ih =>
      rw [List.cons_append, evalStatements] at evaluates
      rcases ok_of_bind evaluates with ⟨own, middle, early, late⟩
      cases own with
      | normal => exact ih late
      | breaks | continues | returns =>
          cases late
          simp

theorem activate_of_ok {store : String → Value} {body : Eval Flow}
    (result : body (state.entered store) = .ok flow after) :
    activate store body state = .ok flow.value (state.resumed after) := by
  unfold State.entered at result
  rw [activate, result]
  rfl

theorem activate_of_error {store : String → Value} {body : Eval Flow} {halt : Halt}
    (result : body (state.entered store) = .error halt after) :
    activate store body state = .error halt (state.resumed after) := by
  unfold State.entered at result
  rw [activate, result]
  rfl

end Flows

namespace Execution

variable {e : Execution} {a : Activation} {fuel : Nat} {invoke : Invoke} {state : State}
  {run : Run}

/-- The code of the program stands at the start of the unit. -/
theorem stands_program (exits : Code.Exit → Nat) :
    Stands e.unit.opcodes 0
      (pieceCode exits (assembleStatements e.functions e.topPlace 0 e.program.items)) := by
  rcases Code.pieces_program e.shaped e.functions e.natives e.top e.rest with ⟨code, pieces⟩
  have same : assembleStatements e.functions e.topPlace 0 e.program.items =
    Code.plainPieces code := pieces
  rw [same, Code.pieceCode_plainPieces]
  exact Code.stands_of_bytes (e.compiled.bytes_code pieces)

/-- The code of a body that is defined in the program stands at its entry. -/
theorem stands_body {body : Body} (member : body ∈ Code.programBodies e.program) :
    ∃ exits, Stands e.unit.opcodes body.entry (pieceCode exits (assembleStatements e.functions
      (Code.innerPlace e.functions e.topPlace body.definition.name) body.entry
      body.definition.body)) :=
  Code.bodiesStand_statements e.shaped
    (fun node inside => Code.bodiesStand_statement (e.shaped node inside))
    (stands_program fun _ => 0) member

/-- A run that ended in a call has ended in the activation that made the call. -/
theorem Ended.caller {frame : Frame} {returnTo : Nat} {used : Bool} {left : List Value}
    {body : Body} {scope : Scope} {inner : State}
    (ended : e.Ended (a.calling frame returnTo used (left ++ (state.results.reverse ++ a.below))
      body scope) inner run)
    (remembers : e.Remembers a.scope state.store frame.memory) :
    e.Ended a (state.resumed inner) run where
  operands := by
    rcases ended.operands with ⟨front, values⟩
    refine ⟨front ++ (inner.results.reverse ++ left), ?_⟩
    rw [← values]
    simp only [Activation.calling, State.resumed, List.append_assoc]
  frames := by
    rcases ended.frames with ⟨own, deeper, frames, _⟩
    refine ⟨frame, own :: deeper, ?_, remembers⟩
    rw [frames]
    simp only [Activation.calling, Array.toList_push, List.append_assoc, List.singleton_append]
  host := ended.host
  faults := ended.faults

/-- The surroundings of a function's body are those of its activation. -/
theorem Denotes.surrounds {ref : FunctionRef} {body : Body} {scope : Scope}
    (denotes : e.Denotes ref body scope) {frame : Frame} {returnTo : Nat} {used : Bool}
    {below : List Value} : e.Surrounds (a.calling frame returnTo used below body scope)
      (Code.innerPlace e.functions e.topPlace body.definition.name) :=
  ⟨denotes.serves, denotes.scopeEq, rfl⟩

/-- All statements of a scope stand in it. -/
theorem meets_body {node : Node} (member : node ∈ a.text.body) : a.Meets node :=
  fun _ inside => Node.mem_occurrencesAll.2 ⟨node, member, inside⟩

/-- The body of a function is followed up to the return that it ends with. -/
theorem follows_body {ref : FunctionRef} {body : Body} {scope : Scope}
    (denotes : e.Denotes ref body scope) {frame : Frame} {returnTo : Nat} {used : Bool}
    {below : List Value}
    (invokes : e.InvokeFollows fuel (a.depth + 1) invoke)
    (at_ : e.At (a.calling frame returnTo used below body scope) body.entry [] state run) :
    e.Follows fuel
      (fun flow state run => ∃ value, flow = .returns value ∧
        e.Before (a.calling frame returnTo used below body scope) .return_ [value] state run)
      (e.Ended (a.calling frame returnTo used below body scope)) run
      (evalStatements e.setting ⟨body.definition.text, a.depth + 1, true⟩ invoke fuel
        body.definition.body state) := by
  intro holds
  rcases stands_body denotes.listed with ⟨exits, stands⟩
  have surrounds : e.Surrounds (a.calling frame returnTo used below body scope)
    (Code.innerPlace e.functions e.topPlace body.definition.name) := denotes.surrounds
  have deeper : (a.calling frame returnTo used below body scope).depth = a.depth + 1 := by
    simp only [Activation.depth, Activation.calling, Array.size_push]
  rw [← deeper] at invokes
  have come := follows_statements denotes.shaped.body (fun item member => meets_body member)
    (fun item member => follows_statement surrounds invokes (denotes.shaped.body item member))
    stands at_ holds
  rw [Code.innerPlace_drops, deeper] at come
  have text : (a.calling frame returnTo used below body scope).text = body.definition.text := rfl
  rw [text] at come
  generalize result : evalStatements e.setting ⟨body.definition.text, a.depth + 1, true⟩ invoke
    fuel body.definition.body state = outcome at come ⊢
  cases come with
  | @goesOn flow after count later reaches fits =>
      cases flow with
      | normal => exact (flow_ne_normal denotes.shaped.ended result rfl).elim
      | breaks | continues => cases fits.1
      | returns value => exact .goesOn reaches ⟨value, rfl, fits.2⟩
  | ends reaches ends fits => exact .ends reaches ends fits
  | lasts reaches enough => exact .lasts reaches enough

/-- A call of a function is followed when its body is: the run enters the function, and the
return goes back behind the call. -/
theorem follows_activate {least offset : Nat} {operands args : List Value} {slot : UInt16}
    {count : UInt8} {used : Bool} {rest : List Instruction} {ref : FunctionRef} {body : Body}
    {scope : Scope} {evaluation : Eval Flow}
    (at_ : e.At a offset (args.reverse ++ operands) state run)
    (stands : Stands e.unit.opcodes offset (.call slot count used :: rest))
    (length : args.length = count.toNat)
    (held : run.machine.frame.memory[slot.toNat]? = some (.function ref))
    (denotes : e.Denotes ref body scope) (arity : ref.arity = args.length)
    (shallow : a.depth < e.callDepth)
    (follows : ∀ later, e.At (a.calling run.machine.frame (offset + 5) used
        (operands ++ (state.results.reverse ++ a.below)) body scope) body.entry []
          (state.entered (boundStore body.definition.params args)) later →
      e.Follows least
        (fun flow inner last => ∃ value, flow = .returns value ∧
          e.Before (a.calling run.machine.frame (offset + 5) used
            (operands ++ (state.results.reverse ++ a.below)) body scope) .return_ [value] inner
            last)
        (e.Ended (a.calling run.machine.frame (offset + 5) used
          (operands ++ (state.results.reverse ++ a.below)) body scope)) later
        (evaluation (state.entered (boundStore body.definition.params args)))) :
    e.Follows (least + 1) (e.Called a (offset + 5) used operands) (e.Ended a) run
      (activate (boundStore body.definition.params args) evaluation state) := by
  rcases at_.enters stands length held denotes arity shallow with ⟨later, moves, entered⟩
  refine .longer moves fun holds => ?_
  have come := follows later entered holds
  generalize result : evaluation (state.entered (boundStore body.definition.params args)) =
    outcome at come
  cases come with
  | goesOn reaches fits =>
      rcases fits with ⟨value, rfl, place, behind, returnStands, within⟩
      rcases at_.returns within returnStands with ⟨last, returns, called⟩
      rw [activate_of_ok result]
      exact .goesOn (reaches.trans (.single returns)) called
  | ends reaches ends ended =>
      rw [activate_of_error result]
      exact .ends reaches ends (ended.caller at_.memory)
  | lasts reaches enough =>
      rw [activate_of_error result]
      exact .lasts reaches enough

/-- Invocations are followed as long as their fuel says. -/
theorem invokeFollows_invoke (fuel depth : Nat) :
    e.InvokeFollows fuel depth (Meaning.invoke e.setting fuel depth) := by
  induction fuel generalizing depth with
  | zero =>
      intro a offset operands args state run slot count used rest ref _ _ _ _ _ _ _ _
      exact .exhausted
  | succ fuel ih =>
      intro a offset operands args state run slot count used rest ref depthEq at_ stands length held
        member arity shallow
      rcases exists_denotes member with ⟨body, scope, denotes⟩
      have invokes : Meaning.invoke e.setting (fuel + 1) depth ref args =
          activate (boundStore body.definition.params args)
            (evalStatements e.setting ⟨body.definition.text, depth + 1, true⟩
              (Meaning.invoke e.setting fuel (depth + 1)) fuel body.definition.body) := by
        have defined : (Code.definitions e.setting.program).find? (·.name == ref.name) =
          some body.definition := denotes.defined
        rw [Meaning.invoke, defined]
      rw [invokes, ← depthEq]
      rw [← depthEq] at shallow
      exact follows_activate at_ stands length held denotes arity shallow
        fun later entered => follows_body denotes (ih (a.depth + 1)) entered

end Execution

end Lehce.Meaning
