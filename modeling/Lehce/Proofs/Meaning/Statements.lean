import Lehce.Proofs.Code.BodyCode
import Lehce.Proofs.Meaning.Expressions

/-!
# Statements and their code

The code of a statement does what the evaluator does with the statement, and ends where the
flow of the evaluation says: behind the statement, at the jump that leaves the loop around
it or starts its next round, or at the return from the function. A loop goes through one
round after the other, and each round takes at least one step.
-/

namespace Lehce.Meaning

open Code (Exit Instruction Stands Surroundings assembleExpression assembleStatement
  assembleStatements codeSize_pieceCode loopExits pieceCode pieceCode_append pieceCode_loop
  pieceCode_plain pieceCode_plainPieces)

section Evaluation

variable {α : Type} {setting : Setting} {place : Meaning.Place} {invoke : Invoke} {fuel : Nat}

theorem truthy_bind (value : Value) (following : Bool → Eval α) (state : State) :
    (truthy value >>= following) state = following (state.host.heap.truthy value) state := rfl

theorem hasValue_of_valued {node : Node} (valued : node.isValued) :
    hasValue node = Code.leavesValue node := by
  cases node with
  | prefixed position op operand used => cases op <;> cases used <;> rfl
  | assignment | branch | whileLoop | endlessLoop | breaks | continues | returns | function
  | block => cases valued
  | _ => rfl

theorem evalStatement_of_valued {node : Node} (valued : node.isValued) :
    evalStatement setting place invoke fuel node =
      evalExpression setting place invoke node >>= fun value =>
        keepValue place node value >>= fun _ => pure .normal := by
  cases node <;> simp_all [Node.isValued, evalStatement]

/-- The state in which a value has been kept among the results. -/
def State.kept (state : State) (value : Value) : State :=
  { state with results := state.results ++ [value] }

theorem keepValue_bind {node : Node} {value : Value} (following : PUnit → Eval α)
    (state : State) : (keepValue place node value >>= following) state =
      following ⟨⟩ (if hasValue node && !place.drops then state.kept value else state) := by
  rw [keepValue]
  split <;> rfl

end Evaluation

namespace Execution

/-- A run is about to execute an instruction of an activation. -/
def Before (e : Execution) (a : Activation) (instruction : Instruction) (operands : List Value)
    (state : State) (run : Run) : Prop :=
  ∃ offset rest, Stands e.unit.opcodes offset (instruction :: rest) ∧
    e.At a offset operands state run

/-- Where an evaluation of a statement comes to, as its flow says. -/
def Lands (e : Execution) (a : Activation) (exits : Exit → Nat) (inLoop inFunction : Bool)
    (stop : Nat) : Flow → State → Run → Prop
  | .normal => e.At a stop []
  | .breaks => fun state run =>
    inLoop = true ∧ e.Before a (.jump (exits .breaks).toUInt16) [] state run
  | .continues => fun state run =>
    inLoop = true ∧ e.Before a (.jump (exits .continues).toUInt16) [] state run
  | .returns value => fun state run => inFunction = true ∧ e.Before a .return_ [value] state run

/-- The code of a statement does what the evaluator does with the statement. -/
def StatementFollows (e : Execution) (fuel : Nat) (invoke : Invoke) (a : Activation)
    (place : Surroundings) (inLoop inFunction : Bool) (node : Node) : Prop :=
  a.Meets node → ∀ (exits : Exit → Nat) (start : Nat) (state : State) (run : Run),
    Stands e.unit.opcodes start
      (pieceCode exits (assembleStatement e.functions place start node)) →
    e.At a start [] state run →
    e.Follows fuel (e.Lands a exits inLoop inFunction (start + node.statementSize place.drops))
      (e.Ended a) run
      (evalStatement e.setting ⟨a.text, a.depth, place.drops⟩ invoke fuel node state)

variable {e : Execution} {a : Activation} {place : Surroundings} {fuel : Nat} {invoke : Invoke}
  {inLoop inFunction : Bool} {node : Node} {exits : Exit → Nat} {start stop : Nat}
  {state : State} {run : Run}

theorem Surrounds.looping (surrounds : e.Surrounds a place) : e.Surrounds a place.looping :=
  ⟨surrounds.serves, surrounds.scope, surrounds.natives⟩

theorem fits_code : e.unit.opcodes.size ≤ Code.maxOperand := by
  rw [e.compiled.size]
  exact e.compiled.small

/-- A value on top of the operands is kept among the results. -/
theorem At.keeps {value : Value} (at_ : e.At a stop [value] state run) :
    e.At a stop [] (state.kept value) run where
  offset := at_.offset
  operands := by
    rw [at_.operands, State.kept, List.reverse_append]
    rfl
  base := at_.base
  memory := at_.memory
  returnTo := at_.returnTo
  used := at_.used
  callers := at_.callers
  callDepth := at_.callDepth
  host := at_.host
  faults := at_.faults

theorem follows_statements {nodes : List Node}
    (shapes : ∀ node ∈ nodes, node.IsStatement Number.IsNumber inLoop inFunction)
    (meets : ∀ node ∈ nodes, a.Meets node)
    (follows : ∀ node ∈ nodes, e.StatementFollows fuel invoke a place inLoop inFunction node)
    (stands : Stands e.unit.opcodes start
      (pieceCode exits (assembleStatements e.functions place start nodes)))
    (at_ : e.At a start [] state run) :
    e.Follows fuel
      (e.Lands a exits inLoop inFunction (start + Node.statementsSize place.drops nodes))
      (e.Ended a) run
      (evalStatements e.setting ⟨a.text, a.depth, place.drops⟩ invoke fuel nodes state) := by
  induction nodes generalizing start state run with
  | nil =>
      rw [evalStatements, Node.statementsSize]
      exact .pure at_
  | cons node rest ih =>
      rcases List.forall_mem_cons.1 shapes with ⟨shape, restShapes⟩
      rcases List.forall_mem_cons.1 meets with ⟨nodeMeets, restMeets⟩
      rcases List.forall_mem_cons.1 follows with ⟨nodeFollows, restFollows⟩
      rw [assembleStatements, pieceCode_append] at stands
      rcases Stands.append_iff.1 stands with ⟨nodeStands, restStands⟩
      rw [codeSize_pieceCode, Code.size_assembleStatement _ _ shape] at restStands
      rw [evalStatements, Node.statementsSize, ← Nat.add_assoc]
      refine .bind (nodeFollows nodeMeets exits start state run nodeStands at_) ?_
      intro flow state run lands
      cases flow with
      | normal => exact ih restShapes restMeets restFollows restStands lands
      | breaks | continues | returns => exact .pure lands

/-- A statement that is an expression keeps its value on the stack, or drops it. -/
theorem follows_valued (valued : node.isValued)
    (sizes : ∀ start, Code.codeSize (assembleExpression e.functions place start node) =
      node.expressionSize)
    (evaluates : a.Meets node → ∀ (start : Nat) (state : State) (run : Run),
      Stands e.unit.opcodes start (assembleExpression e.functions place start node) →
      e.At a start [] state run →
      e.Follows fuel (e.Called a (start + node.expressionSize) (hasValue node) []) (e.Ended a) run
        (evalExpression e.setting ⟨a.text, a.depth, place.drops⟩ invoke node state)) :
    e.StatementFollows fuel invoke a place inLoop inFunction node := by
  intro meets exits start state run stands at_
  have hasValueEq := hasValue_of_valued valued
  rw [Code.assembleStatement_of_valued _ _ _ valued, pieceCode_plainPieces, ← hasValueEq] at stands
  rw [evalStatement_of_valued valued, Code.statementSize_of_valued _ valued, ← hasValueEq,
    ← Nat.add_assoc]
  rcases Stands.append_iff.1 stands with ⟨valueStands, behind⟩
  rw [sizes] at behind
  refine .bind (evaluates meets start state run valueStands at_) ?_
  intro value state run called
  rw [keepValue_bind]
  cases valueKept : hasValue node with
  | false =>
      rw [valueKept] at called
      exact .pure called
  | true =>
      rw [valueKept] at called behind
      cases drops : place.drops with
      | true =>
          rw [drops] at behind
          rcases At.pop called behind with ⟨last, pops, at_⟩
          exact .step pops (.pure at_)
      | false => exact .pure (At.keeps called)

section Assignments

variable {op : Op} {value : Node} {position targetPosition : Position}

/-- The code that combines an old value on top of the operands with that of an expression. -/
theorem follows_combine {offset : Nat} {operands : List Value} {old : Value} {drops : Bool}
    {rest : List Instruction} (valueShape : value.IsExpression Number.IsNumber)
    (meets : a.Meets value)
    (valueFollows : e.ExpressionFollows fuel invoke a place drops value)
    (stands : Stands e.unit.opcodes offset
      (assembleExpression e.functions place offset value ++ Code.assignedOp op :: rest))
    (at_ : e.At a offset (old :: operands) state run) :
    e.Follows fuel (e.Leaves a (offset + value.expressionSize + 1) operands) (e.Ended a) run
      (combine e.setting ⟨a.text, a.depth, drops⟩ invoke op old value state) := by
  rcases stands_behind valueShape stands with ⟨valueStands, last⟩
  refine .bind (valueFollows meets offset (old :: operands) state run valueStands at_) ?_
  intro new state run at_
  exact at_.binary last

/-- Storing a value assigns the variable. -/
theorem follows_store {offset : Nat} {name : String} {new : Value} {rest : List Instruction}
    (surrounds : e.Surrounds a place)
    (declared : ∃ slot, a.scope.variableSlot? name = some slot)
    (stands : Stands e.unit.opcodes offset
      (.store (Code.variableAddress place.scope name) :: rest))
    (at_ : e.At a offset [new] state run) :
    e.Follows fuel (fun _ => e.At a (offset + 3) []) (e.Ended a) run (assign name new state) := by
  rw [surrounds.scope] at stands
  rcases at_.store surrounds.serves declared stands with ⟨later, stores, at_⟩
  exact .step stores (.pure at_)

theorem follows_assignment {name : String} (surrounds : e.Surrounds a place)
    (invokes : e.InvokeFollows fuel a.depth invoke)
    (valueShape : value.IsExpression Number.IsNumber) :
    e.StatementFollows fuel invoke a place inLoop inFunction
      (.assignment position (.symbol targetPosition name) op value) := by
  intro meets exits start state run stands at_
  have declared : ∃ slot, a.scope.variableSlot? name = some slot :=
    (surrounds.serves.serves.answers meets.self rfl).assigned name rfl
  have valueMeets : a.Meets value := meets.part (by simp [Node.parts])
  have valueFollows : e.ExpressionFollows fuel invoke a place place.drops value :=
    follows_expression surrounds invokes valueShape
  have size : start + (Node.assignment position (.symbol targetPosition name) op
      value).statementSize place.drops =
        if op = .assign then start + value.expressionSize + 3
        else start + 3 + value.expressionSize + 1 + 3 := by
    simp only [Node.statementSize]
    split <;> omega
  have assigns : e.Follows fuel
      (fun _ => e.At a (start + (Node.assignment position (.symbol targetPosition name) op
        value).statementSize place.drops) []) (e.Ended a) run
      (evalAssignment e.setting ⟨a.text, a.depth, place.drops⟩ invoke
        (.symbol targetPosition name) op value state) := by
    rw [size]
    simp only [assembleStatement, pieceCode_plainPieces, Code.steppedAddress] at stands
    simp only [evalAssignment]
    by_cases plain : op = .assign
    · simp only [plain, if_true] at stands ⊢
      rcases stands_behind valueShape stands with ⟨valueStands, last⟩
      refine .bind (valueFollows valueMeets start [] state run valueStands at_) ?_
      intro new state run at_
      exact follows_store surrounds declared last at_
    · simp only [plain, if_false, List.cons_append, List.append_assoc, List.nil_append] at stands ⊢
      have loaded := at_.memory.slot_variable surrounds.serves declared
      rw [← surrounds.scope] at loaded
      rcases at_.load stands loaded with ⟨later, loads, at_⟩
      have combines : Stands e.unit.opcodes (start + 3) _ := (Stands.cons_iff.1 stands).2
      have stores := (Stands.cons_iff.1 (stands_behind valueShape combines).2).2
      rw [get_bind]
      refine .step loads
        (.bind (follows_combine valueShape valueMeets valueFollows combines at_) ?_)
      intro new state run at_
      exact follows_store surrounds declared stores at_
  rw [evalStatement]
  exact .bind assigns fun _ _ _ at_ => .pure at_

theorem follows_itemAssignment {body key : Node} (surrounds : e.Surrounds a place)
    (invokes : e.InvokeFollows fuel a.depth invoke)
    (bodyShape : body.IsExpression Number.IsNumber) (keyShape : key.IsExpression Number.IsNumber)
    (valueShape : value.IsExpression Number.IsNumber) :
    e.StatementFollows fuel invoke a place inLoop inFunction
      (.assignment position (.index targetPosition body key) op value) := by
  intro meets exits start state run stands at_
  have target : a.Meets (.index targetPosition body key) := meets.part (by simp [Node.parts])
  have valueMeets : a.Meets value := meets.part (by simp [Node.parts])
  have valueFollows : e.ExpressionFollows fuel invoke a place place.drops value :=
    follows_expression surrounds invokes valueShape
  have size : start + (Node.assignment position (.index targetPosition body key) op
      value).statementSize place.drops =
        if op = .assign then
          start + body.expressionSize + key.expressionSize + value.expressionSize + 1
        else
          start + body.expressionSize + key.expressionSize + 2 + value.expressionSize + 1 + 1 := by
    simp only [Node.statementSize]
    split <;> omega
  have assigns : e.Follows fuel
      (fun _ => e.At a (start + (Node.assignment position (.index targetPosition body key) op
        value).statementSize place.drops) []) (e.Ended a) run
      (evalAssignment e.setting ⟨a.text, a.depth, place.drops⟩ invoke
        (.index targetPosition body key) op value state) := by
    rw [size]
    simp only [assembleStatement, pieceCode_plainPieces] at stands
    rcases stands_behind bodyShape stands with ⟨bodyStands, behindBody⟩
    rcases stands_behind keyShape behindBody with ⟨keyStands, behindKey⟩
    simp only [evalAssignment]
    refine .bind (follows_expression surrounds invokes bodyShape
      (target.part (by simp [Node.parts])) start [] state run bodyStands at_) ?_
    intro container state run at_
    refine .bind (follows_expression surrounds invokes keyShape (target.part (by simp [Node.parts]))
      _ _ state run keyStands at_) ?_
    intro index state run at_
    by_cases plain : op = .assign
    · simp only [plain, if_true] at behindKey ⊢
      rcases stands_behind valueShape behindKey with ⟨valueStands, last⟩
      refine .bind (valueFollows valueMeets _ _ state run valueStands at_) ?_
      intro new state run at_
      exact at_.setItem last
    · simp only [plain, if_false, List.cons_append, List.append_assoc, List.nil_append]
        at behindKey ⊢
      rcases at_.dup2 behindKey with ⟨copied, copies, at_⟩
      have reads : Stands e.unit.opcodes
          (start + body.expressionSize + key.expressionSize + 1) _ :=
        (Stands.cons_iff.1 behindKey).2
      have combines : Stands e.unit.opcodes
          (start + body.expressionSize + key.expressionSize + 2) _ := (Stands.cons_iff.1 reads).2
      have writes := (Stands.cons_iff.1 (stands_behind valueShape combines).2).2
      refine .step copies (.bind (at_.getItem reads) ?_)
      intro old state run at_
      refine .bind (follows_combine valueShape valueMeets valueFollows combines at_) ?_
      intro new state run at_
      exact at_.setItem writes
  rw [evalStatement]
  exact .bind assigns fun _ _ _ at_ => .pure at_

end Assignments

section Loops

variable {guard : Eval Bool} {body : Eval Flow} {first last : Nat}

theorem Before.jump {target : Nat}
    (before : e.Before a (.jump target.toUInt16) [] state run)
    (small : target ≤ e.unit.opcodes.size) :
    ∃ later, e.next run = .inl later ∧ e.At a target [] state later := by
  rcases before with ⟨offset, rest, stands, at_⟩
  exact at_.jump stands small fits_code

/-- A loop is followed when its guard and its body are. Between two rounds there is a jump, so a
run lasts at least as long as the fuel of the loop. -/
theorem follows_iterate {least : Nat}
    (guards : ∀ (state : State) (run : Run), e.At a start [] state run →
      e.Follows least (fun holds => e.At a (if holds then first else stop) []) (e.Ended a) run
        (guard state))
    (bodies : ∀ (state : State) (run : Run), e.At a first [] state run →
      e.Follows least (e.Lands a (loopExits start stop) true inFunction last) (e.Ended a) run
        (body state))
    {rest : List Instruction}
    (again : Stands e.unit.opcodes last (.jump start.toUInt16 :: rest))
    (startSmall : start ≤ e.unit.opcodes.size) (stopSmall : stop ≤ e.unit.opcodes.size)
    {fuel : Nat} (enough : fuel ≤ least) (at_ : e.At a start [] state run) :
    e.Follows fuel (e.Lands a exits inLoop inFunction stop) (e.Ended a) run
      (iterate guard body fuel state) := by
  induction fuel generalizing state run with
  | zero => exact .exhausted
  | succ fuel ih =>
      rw [iterate]
      refine .bind ((guards state run at_).fewer enough) ?_
      intro holds state run at_
      cases holds with
      | false => exact .pure at_
      | true =>
          refine .bind ((bodies state run at_).fewer enough) ?_
          intro flow state run lands
          cases flow with
          | normal =>
              rcases At.jump lands again startSmall fits_code with ⟨later, jumps, at_⟩
              exact .longer jumps (ih (by omega) at_)
          | continues =>
              rcases lands.2.jump startSmall with ⟨later, jumps, at_⟩
              exact .longer jumps (ih (by omega) at_)
          | breaks =>
              rcases lands.2.jump stopSmall with ⟨later, jumps, at_⟩
              exact .step jumps (.pure at_)
          | returns value => exact .pure lands

theorem follows_endlessLoop {position bodyPosition : Position} {body : List Node}
    (bodyShapes : ∀ item ∈ body, item.IsStatement Number.IsNumber true inFunction)
    (bodyFollows : ∀ item ∈ body,
      e.StatementFollows fuel invoke a place.looping true inFunction item) :
    e.StatementFollows fuel invoke a place inLoop inFunction
      (.endlessLoop position bodyPosition body) := by
  intro meets exits start state run stands at_
  generalize lastEq : start + Node.statementsSize true body = last
  rcases Code.stands_endlessLoop bodyShapes stands lastEq with ⟨bodyStands, jumpStands⟩
  have ends : last + 3 ≤ e.unit.opcodes.size := jumpStands.size_le
  have small : start ≤ e.unit.opcodes.size := by omega
  have guards : ∀ (state : State) (run : Run), e.At a start [] state run →
      e.Follows fuel (fun holds => e.At a (if holds then start else last + 3) []) (e.Ended a) run
        ((pure true : Eval Bool) state) := fun state run at_ => .pure at_
  have bodies : ∀ (state : State) (run : Run), e.At a start [] state run →
      e.Follows fuel (e.Lands a (loopExits start (last + 3)) true inFunction last) (e.Ended a) run
        (evalStatements e.setting ⟨a.text, a.depth, true⟩ invoke fuel body state) := by
    intro state run at_
    have follows := follows_statements bodyShapes
      (fun item member => meets.part (by simpa [Node.parts] using member)) bodyFollows bodyStands
      at_
    rwa [Code.looping_drops, lastEq] at follows
  rw [evalStatement, Node.statementSize, ← Nat.add_assoc, lastEq]
  exact follows_iterate guards bodies jumpStands small ends (Nat.le_refl fuel) at_

/-- Code that tests a condition goes on behind the test or to its target. -/
theorem follows_condition {condition : Node} {offset target : Nat} {rest : List Instruction}
    {α : Type} {after : α → State → Run → Prop} {following : Bool → Eval α} {drops : Bool}
    (conditionShape : condition.IsExpression Number.IsNumber)
    (conditionFollows : e.ExpressionFollows fuel invoke a place drops condition)
    (meets : a.Meets condition)
    (stands : Stands e.unit.opcodes offset
      (assembleExpression e.functions place offset condition ++
        .compare target.toUInt16 :: rest))
    (small : target ≤ e.unit.opcodes.size)
    (goesOn : ∀ (holds : Bool) (state : State) (run : Run),
      e.At a (if holds then offset + condition.expressionSize + 3 else target) [] state run →
      e.Follows fuel after (e.Ended a) run (following holds state))
    (at_ : e.At a offset [] state run) :
    e.Follows fuel after (e.Ended a) run
      ((evalExpression e.setting ⟨a.text, a.depth, drops⟩ invoke condition >>= fun value =>
        truthy value >>= following) state) := by
  rcases stands_behind conditionShape stands with ⟨conditionStands, compares⟩
  refine .bind (conditionFollows meets offset [] state run conditionStands at_) ?_
  intro value state run at_
  rw [truthy_bind]
  rcases At.compare at_ compares small fits_code with ⟨later, moves, at_⟩
  exact .step moves (goesOn _ state later at_)

theorem follows_whileLoop {position bodyPosition : Position} {condition : Node} {body : List Node}
    (surrounds : e.Surrounds a place) (invokes : e.InvokeFollows fuel a.depth invoke)
    (conditionShape : condition.IsExpression Number.IsNumber)
    (bodyShapes : ∀ item ∈ body, item.IsStatement Number.IsNumber true inFunction)
    (bodyFollows : ∀ item ∈ body,
      e.StatementFollows fuel invoke a place.looping true inFunction item) :
    e.StatementFollows fuel invoke a place inLoop inFunction
      (.whileLoop position condition bodyPosition body) := by
  intro meets exits start state run stands at_
  generalize firstEq : start + condition.expressionSize + 3 = first
  generalize lastEq : first + Node.statementsSize true body = last
  rcases Code.stands_whileLoop conditionShape bodyShapes stands firstEq lastEq with
    ⟨⟨rest, testStands⟩, bodyStands, jumpStands⟩
  have ends : last + 3 ≤ e.unit.opcodes.size := jumpStands.size_le
  have small : start ≤ e.unit.opcodes.size := by omega
  have guards : ∀ (state : State) (run : Run), e.At a start [] state run →
      e.Follows fuel (fun holds => e.At a (if holds then first else last + 3) []) (e.Ended a) run
        ((evalExpression e.setting ⟨a.text, a.depth, place.drops⟩ invoke condition >>= truthy)
          state) := by
    intro state run at_
    rw [← firstEq]
    exact follows_condition conditionShape (follows_expression surrounds invokes conditionShape)
      (meets.part (by simp [Node.parts])) testStands ends (fun holds state run at_ => .pure at_) at_
  have bodies : ∀ (state : State) (run : Run), e.At a first [] state run →
      e.Follows fuel (e.Lands a (loopExits start (last + 3)) true inFunction last) (e.Ended a) run
        (evalStatements e.setting ⟨a.text, a.depth, true⟩ invoke fuel body state) := by
    intro state run at_
    have follows := follows_statements bodyShapes
      (fun item member => meets.part (by simp [Node.parts, member])) bodyFollows bodyStands at_
    rwa [Code.looping_drops, lastEq] at follows
  have stop : start + (Node.whileLoop position condition bodyPosition body).statementSize
      place.drops = last + 3 := by
    rw [Node.statementSize]
    omega
  rw [evalStatement, stop]
  exact follows_iterate guards bodies jumpStands small ends (Nat.le_refl fuel) at_

end Loops

section Branches

variable {position bodyPosition : Position} {condition other : Node} {body : List Node}

theorem follows_block {items : List Node}
    (shapes : ∀ item ∈ items, item.IsStatement Number.IsNumber inLoop inFunction)
    (follows : ∀ item ∈ items, e.StatementFollows fuel invoke a place inLoop inFunction item) :
    e.StatementFollows fuel invoke a place inLoop inFunction (.block position items) := by
  intro meets exits start state run stands at_
  rw [assembleStatement] at stands
  rw [evalStatement, Node.statementSize]
  exact follows_statements shapes
    (fun item member => meets.part (by simpa [Node.parts] using member)) follows stands at_

theorem follows_branch (surrounds : e.Surrounds a place)
    (invokes : e.InvokeFollows fuel a.depth invoke)
    (conditionShape : condition.IsExpression Number.IsNumber)
    (bodyShapes : ∀ item ∈ body, item.IsStatement Number.IsNumber inLoop inFunction)
    (bodyFollows : ∀ item ∈ body, e.StatementFollows fuel invoke a place inLoop inFunction item) :
    e.StatementFollows fuel invoke a place inLoop inFunction
      (.branch position condition bodyPosition body none) := by
  intro meets exits start state run stands at_
  generalize firstEq : start + condition.expressionSize + 3 = first
  generalize secondEq : first + Node.statementsSize place.drops body = second
  rcases Code.stands_branch conditionShape stands firstEq secondEq with
    ⟨⟨rest, testStands⟩, bodyStands⟩
  have small := bodyStands.size_le
  rw [Code.codeSize_statements bodyShapes, secondEq] at small
  have stop : start + (Node.branch position condition bodyPosition body none).statementSize
      place.drops = second := by
    rw [Node.statementSize]
    omega
  rw [evalStatement, stop]
  refine follows_condition conditionShape (follows_expression surrounds invokes conditionShape)
    (meets.part (by simp [Node.parts])) testStands small ?_ at_
  intro holds state run at_
  cases holds with
  | true =>
      rw [if_pos rfl, firstEq] at at_
      rw [if_pos rfl, ← secondEq]
      exact follows_statements bodyShapes
        (fun item member => meets.part (by simp [Node.parts, member])) bodyFollows bodyStands at_
  | false => exact .pure at_

theorem follows_branchOther (surrounds : e.Surrounds a place)
    (invokes : e.InvokeFollows fuel a.depth invoke)
    (conditionShape : condition.IsExpression Number.IsNumber)
    (bodyShapes : ∀ item ∈ body, item.IsStatement Number.IsNumber inLoop inFunction)
    (bodyFollows : ∀ item ∈ body, e.StatementFollows fuel invoke a place inLoop inFunction item)
    (otherSize : ∀ start, Code.piecesSize (assembleStatement e.functions place start other) =
      other.statementSize place.drops)
    (otherFollows : e.StatementFollows fuel invoke a place inLoop inFunction other) :
    e.StatementFollows fuel invoke a place inLoop inFunction
      (.branch position condition bodyPosition body (some other)) := by
  intro meets exits start state run stands at_
  generalize firstEq : start + condition.expressionSize + 3 = first
  generalize secondEq : first + Node.statementsSize place.drops body = second
  generalize stopEq : second + 3 + other.statementSize place.drops = stop
  rcases Code.stands_branchOther conditionShape bodyShapes stands firstEq secondEq stopEq with
    ⟨⟨rest, testStands⟩, bodyStands, ⟨behind, jumpStands⟩, otherStands⟩
  have small := otherStands.size_le
  rw [codeSize_pieceCode, otherSize, stopEq] at small
  have wholeStop : start + (Node.branch position condition bodyPosition body
      (some other)).statementSize place.drops = stop := by
    simp only [Node.statementSize]
    omega
  rw [evalStatement, wholeStop]
  refine follows_condition conditionShape (follows_expression surrounds invokes conditionShape)
    (meets.part (by simp [Node.parts])) testStands (by omega) ?_ at_
  intro holds state run at_
  cases holds with
  | true =>
      rw [if_pos rfl, firstEq] at at_
      rw [if_pos rfl]
      refine .onward (follows_statements bodyShapes
        (fun item member => meets.part (by simp [Node.parts, member])) bodyFollows bodyStands at_)
        ?_
      intro flow state run lands
      cases flow with
      | normal =>
          rw [secondEq] at lands
          rcases At.jump lands jumpStands small fits_code with ⟨later, jumps, at_⟩
          exact .step jumps (.pure at_)
      | breaks | continues | returns => exact .pure lands
  | false =>
      rw [← stopEq]
      exact otherFollows (meets.part (by simp [Node.parts])) exits (second + 3) state run
        otherStands at_

end Branches

/-- The code of every statement does what the evaluator does with the statement. -/
theorem follows_statement (surrounds : e.Surrounds a place)
    (invokes : e.InvokeFollows fuel a.depth invoke)
    (shape : node.IsStatement Number.IsNumber inLoop inFunction) :
    e.StatementFollows fuel invoke a place inLoop inFunction node := by
  induction shape generalizing place with
  | @value inLoop inFunction node shape lasting =>
      have kept : hasValue node = true :=
        (hasValue_of_valued shape.isValued).trans (Code.leavesValue_of_value shape lasting)
      refine follows_valued shape.isValued (Code.codeSize_assembleExpression _ _ shape) ?_
      intro meets start state run stands at_
      rw [kept]
      exact follows_expression surrounds invokes shape meets start [] state run stands at_
  | @call inLoop inFunction position callee args named argShapes =>
      refine follows_valued rfl (Code.size_assembleCall e.functions place
        (fun arg member => Code.size_assembleExpression e.functions place
          (argShapes arg member)) position callee false) ?_
      intro meets start state run stands at_
      exact follows_call surrounds invokes named argShapes
        (fun arg member => follows_expression surrounds invokes (argShapes arg member)) meets
        stands at_
  | @stepBefore inLoop inFunction position op steps operandPosition name =>
      have size : (Node.prefixed position op (.symbol operandPosition name) false).expressionSize =
          7 := by
        rw [Node.expressionSize, if_pos steps]
      have dropped : hasValue (.prefixed position op (.symbol operandPosition name) false) =
          false := by
        cases op <;> first | rfl | cases steps
      refine follows_valued rfl ?_ ?_
      · intro start
        rw [size]
        exact Code.size_assembleStepBefore e.functions place steps _ _ _ start
      · intro meets start state run stands at_
        rw [dropped, size]
        exact follows_stepBefore surrounds steps meets stands at_
  | stepAfter steps operandPosition name =>
      refine follows_valued rfl (Code.size_assembleStepAfter e.functions place _ _ _ _) ?_
      intro meets start state run stands at_
      exact follows_stepAfter surrounds meets stands at_
  | assignment assigns targetPosition name valueShape =>
      exact follows_assignment surrounds invokes valueShape
  | itemAssignment assigns targetPosition bodyShape keyShape valueShape =>
      exact follows_itemAssignment surrounds invokes bodyShape keyShape valueShape
  | branch conditionShape bodyShapes bodyFollows =>
      exact follows_branch surrounds invokes conditionShape bodyShapes
        fun item member => bodyFollows item member surrounds
  | branchElse conditionShape bodyShapes otherShapes bodyFollows otherFollows =>
      refine follows_branchOther surrounds invokes conditionShape bodyShapes
        (fun item member => bodyFollows item member surrounds) ?_
        (follows_block otherShapes fun item member => otherFollows item member surrounds)
      intro start
      rw [assembleStatement, Node.statementSize]
      exact Code.size_assembleStatements e.functions place
        (fun item member => Code.size_assembleStatement e.functions place
          (otherShapes item member)) start
  | branchChain conditionShape bodyShapes chained otherShape bodyFollows otherFollows =>
      exact follows_branchOther surrounds invokes conditionShape bodyShapes
        (fun item member => bodyFollows item member surrounds)
        (Code.size_assembleStatement e.functions place otherShape) (otherFollows surrounds)
  | endlessLoop bodyShapes bodyFollows =>
      exact follows_endlessLoop bodyShapes
        fun item member => bodyFollows item member surrounds.looping
  | whileLoop conditionShape bodyShapes bodyFollows =>
      exact follows_whileLoop surrounds invokes conditionShape bodyShapes
        fun item member => bodyFollows item member surrounds.looping
  | breaks position | continues position =>
      intro meets exits start state run stands at_
      rw [evalStatement]
      exact .pure ⟨rfl, start, [], stands, at_⟩
  | @returns inLoop position value valueShape =>
      intro meets exits start state run stands at_
      simp only [assembleStatement, pieceCode_plainPieces] at stands
      rcases stands_behind valueShape stands with ⟨valueStands, last⟩
      rw [evalStatement]
      refine .bind (follows_expression surrounds invokes valueShape
        (meets.part (by simp [Node.parts])) start [] state run valueStands at_) ?_
      intro result state run at_
      exact .pure ⟨rfl, _, [], last, at_⟩
  | @function inLoop inFunction position bodyPosition name params body distinct bodyShapes ended =>
      intro meets exits start state run stands at_
      simp only [assembleStatement, pieceCode_plain] at stands
      have size := Code.size_assembleStatements e.functions (Code.innerPlace e.functions place name)
        (fun item member => Code.size_assembleStatement e.functions _ (bodyShapes item member))
        (start + 3)
      rw [Code.innerPlace_drops] at size
      have behind : Stands e.unit.opcodes (start + 3) _ := (Stands.cons_iff.1 stands).2
      have small := behind.size_le
      rw [codeSize_pieceCode, size] at small
      rcases at_.jump stands small fits_code with ⟨later, jumps, at_⟩
      rw [evalStatement, Node.statementSize, ← Nat.add_assoc]
      exact .step jumps (.pure at_)

end Execution

end Lehce.Meaning
