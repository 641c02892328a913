import Lehce.Proofs.Code.Acceptance
import Lehce.Proofs.Meaning.Calls

/-!
# Expressions and their code

The code of an expression leaves the value that the evaluator gives the expression, for
every expression that a source can have. The proof is by induction on the shape of the
expression: each construct needs only that the code of its parts does so.
-/

namespace Lehce.Meaning

open Code (Instruction Stands Surroundings assembleExpression assembleExpressions
  assembleEntries)

/-- All that occurs in a node stands in the scope of an activation. -/
def Activation.Meets (a : Activation) (node : Node) : Prop :=
  ∀ occurrence ∈ node.occurrences false, occurrence ∈ a.text.nodes

theorem Activation.Meets.self {a : Activation} {node : Node} (meets : a.Meets node) :
    node ∈ a.text.nodes := meets node (Node.mem_occurrences_self false node)

theorem Activation.Meets.part {a : Activation} {node part : Node} (meets : a.Meets node)
    (member : part ∈ node.parts) : a.Meets part := fun occurrence inside =>
  meets occurrence (Node.mem_occurrences_iff.2 (.inr ⟨part, member, inside⟩))

namespace Execution

/-- The code of an activation is assembled in some surroundings. -/
structure Surrounds (e : Execution) (a : Activation) (place : Surroundings) : Prop where
  serves : e.Serves a.text a.scope
  scope : place.scope = a.scope
  natives : place.natives = e.natives

/-- The code of an expression leaves the value of the expression. -/
def ExpressionFollows (e : Execution) (least : Nat) (invoke : Invoke) (a : Activation)
    (place : Surroundings) (drops : Bool) (node : Node) : Prop :=
  a.Meets node → ∀ (offset : Nat) (operands : List Value) (state : State) (run : Run),
    Stands e.unit.opcodes offset (assembleExpression e.functions place offset node) →
    e.At a offset operands state run →
    e.Follows least (e.Leaves a (offset + node.expressionSize) operands) (e.Ended a) run
      (evalExpression e.setting ⟨a.text, a.depth, drops⟩ invoke node state)

/-- Where an evaluation of some expressions comes to: there is a value for each. -/
def LeavesAll (e : Execution) (a : Activation) (offset : Nat) (operands : List Value) (count : Nat)
    (values : List Value) (state : State) (run : Run) : Prop :=
  values.length = count ∧ e.At a offset (values.reverse ++ operands) state run

/-- Where an evaluation of the entries of a dictionary comes to. -/
def LeavesEntries (e : Execution) (a : Activation) (offset : Nat) (operands : List Value)
    (count : Nat) (entries : List (String × Value)) (state : State) (run : Run) : Prop :=
  entries.length = count ∧ e.At a offset ((entryOperands entries).reverse ++ operands) state run

variable {e : Execution} {a : Activation} {place : Surroundings} {drops : Bool} {least : Nat}
  {invoke : Invoke} {node : Node}

/-- The code of an expression and what stands behind it. -/
theorem stands_behind {offset : Nat} {rest : List Instruction}
    (shape : node.IsExpression Number.IsNumber)
    (stands : Stands e.unit.opcodes offset
      (assembleExpression e.functions place offset node ++ rest)) :
    Stands e.unit.opcodes offset (assembleExpression e.functions place offset node) ∧
      Stands e.unit.opcodes (offset + node.expressionSize) rest := by
  have both := Stands.append_iff.1 stands
  rwa [Code.codeSize_assembleExpression _ _ shape] at both

theorem follows_expressions {nodes : List Node}
    (shapes : ∀ node ∈ nodes, node.IsExpression Number.IsNumber)
    (meets : ∀ node ∈ nodes, a.Meets node)
    (follows : ∀ node ∈ nodes, e.ExpressionFollows least invoke a place drops node)
    {offset : Nat} {operands : List Value} {state : State} {run : Run}
    (stands : Stands e.unit.opcodes offset
      (assembleExpressions e.functions place offset nodes))
    (at_ : e.At a offset operands state run) :
    e.Follows least
      (e.LeavesAll a (offset + Node.expressionsSize nodes) operands nodes.length) (e.Ended a) run
        (evalExpressions e.setting ⟨a.text, a.depth, drops⟩ invoke nodes state) := by
  induction nodes generalizing offset operands state run with
  | nil =>
      rw [evalExpressions, Node.expressionsSize]
      exact .pure ⟨rfl, at_⟩
  | cons node rest ih =>
      rcases List.forall_mem_cons.1 shapes with ⟨shape, restShapes⟩
      rcases List.forall_mem_cons.1 meets with ⟨nodeMeets, restMeets⟩
      rcases List.forall_mem_cons.1 follows with ⟨nodeFollows, restFollows⟩
      rw [assembleExpressions] at stands
      rcases stands_behind shape stands with ⟨nodeStands, restStands⟩
      rw [evalExpressions, Node.expressionsSize, ← Nat.add_assoc]
      refine .bind (nodeFollows nodeMeets offset operands state run nodeStands at_) ?_
      intro value state run at_
      refine .bind (ih restShapes restMeets restFollows restStands at_) ?_
      rintro values state run ⟨length, at_⟩
      refine .pure ⟨congrArg Nat.succ length, ?_⟩
      rwa [List.reverse_cons, List.append_assoc]

theorem follows_entries {entries : List (String × Node)}
    (shapes : ∀ entry ∈ entries, entry.2.IsExpression Number.IsNumber)
    (meets : ∀ entry ∈ entries, a.Meets entry.2)
    (follows : ∀ entry ∈ entries, e.ExpressionFollows least invoke a place drops entry.2)
    (keys : ∀ entry ∈ entries, ∀ state : State, ∀ memory,
      e.Remembers a.scope state.store memory →
        memory[(Code.literalAddress place.scope (.text entry.1)).toNat]? =
          some (.text entry.1))
    {offset : Nat} {operands : List Value} {state : State} {run : Run}
    (stands : Stands e.unit.opcodes offset (assembleEntries e.functions place offset entries))
    (at_ : e.At a offset operands state run) :
    e.Follows least
      (e.LeavesEntries a (offset + Node.entriesSize entries) operands entries.length) (e.Ended a)
        run (evalEntries e.setting ⟨a.text, a.depth, drops⟩ invoke entries state) := by
  induction entries generalizing offset operands state run with
  | nil =>
      rw [evalEntries, Node.entriesSize]
      exact .pure ⟨rfl, at_⟩
  | cons entry rest ih =>
      rcases List.forall_mem_cons.1 shapes with ⟨shape, restShapes⟩
      rcases List.forall_mem_cons.1 meets with ⟨entryMeets, restMeets⟩
      rcases List.forall_mem_cons.1 follows with ⟨entryFollows, restFollows⟩
      rcases List.forall_mem_cons.1 keys with ⟨key, restKeys⟩
      rw [assembleEntries] at stands
      rcases at_.load stands (key state _ at_.memory) with ⟨keyed, moves, keyedAt⟩
      have behind : Stands e.unit.opcodes (offset + 3) _ := (Stands.cons_iff.1 stands).2
      rcases stands_behind shape behind with ⟨valueStands, restStands⟩
      rw [evalEntries, Node.entriesSize, ← Nat.add_assoc, ← Nat.add_assoc]
      refine .step moves (.bind (entryFollows entryMeets _ _ state keyed valueStands keyedAt) ?_)
      intro value state run at_
      refine .bind (ih restShapes restMeets restFollows restKeys restStands at_) ?_
      rintro values state run ⟨length, at_⟩
      refine .pure ⟨congrArg Nat.succ length, ?_⟩
      simpa [entryOperands] using at_

section Forms

variable {left right : Node} {instruction : Instruction}

/-- Code that computes two values and then an operation on them. -/
theorem follows_both (leftShape : left.IsExpression Number.IsNumber)
    (rightShape : right.IsExpression Number.IsNumber) (leftMeets : a.Meets left)
    (rightMeets : a.Meets right)
    (leftFollows : e.ExpressionFollows least invoke a place drops left)
    (rightFollows : e.ExpressionFollows least invoke a place drops right)
    {operation : Value → Value → Eval Value}
    (operates : ∀ (offset : Nat) (operands : List Value) (first second : Value) (state : State)
      (run : Run), Stands e.unit.opcodes offset [instruction] →
      e.At a offset (second :: first :: operands) state run →
      e.Follows least (e.Leaves a (offset + 1) operands) (e.Ended a) run
        (operation first second state))
    {offset : Nat} {operands : List Value} {state : State} {run : Run}
    (stands : Stands e.unit.opcodes offset
      (assembleExpression e.functions place offset left ++
        (assembleExpression e.functions place (offset + left.expressionSize) right ++
          [instruction])))
    (at_ : e.At a offset operands state run) :
    e.Follows least
      (e.Leaves a (offset + (left.expressionSize + right.expressionSize + 1)) operands)
      (e.Ended a) run
      ((evalExpression e.setting ⟨a.text, a.depth, drops⟩ invoke left >>= fun first =>
        evalExpression e.setting ⟨a.text, a.depth, drops⟩ invoke right >>= fun second =>
          operation first second) state) := by
  rcases stands_behind leftShape stands with ⟨leftStands, behind⟩
  rcases stands_behind rightShape behind with ⟨rightStands, last⟩
  rw [← Nat.add_assoc, ← Nat.add_assoc]
  refine .bind (leftFollows leftMeets offset operands state run leftStands at_) ?_
  intro first state run at_
  refine .bind (rightFollows rightMeets _ _ state run rightStands at_) ?_
  intro second state run at_
  exact operates _ operands first second state run last at_

end Forms

section Logic

variable {offset target : Nat} {operands : List Value} {state : State} {run : Run} {value : Value}
  {rest : List Instruction} {op : Op}

theorem At.not (at_ : e.At a offset (value :: operands) state run)
    (stands : Stands e.unit.opcodes offset (.unary .not :: rest)) :
    ∃ later, e.next run = .inl later ∧
      e.At a (offset + 1) (.bool (!state.host.heap.truthy value) :: operands) state later := by
  have passed := at_.passed (.unary .not)
  have ready := At.dropped [value] passed rfl
  have heap : ((run.machine.passed (.unary .not)).drop 1).host.heap = state.host.heap :=
    ready.heap_eq
  refine ⟨_, at_.next_done stands ?_,
    ready.pushed (.bool (!state.host.heap.truthy value))⟩
  rw [Machine.execute, passed.withOperands (by simp), passed.peek value rfl]
  simp only [heap]
  rfl

/-- The tests of `ve` and `veya` keep the left operand. They go to the end when it decides, and
else behind themselves. -/
theorem At.decides (at_ : e.At a offset (value :: operands) state run)
    (stands : Stands e.unit.opcodes offset
      ((if op = .or then [.dup, .unary .not] else [.dup]) ++ .compare target.toUInt16 :: rest))
    (small : target ≤ e.unit.opcodes.size) :
    ∃ count later, e.Reaches count run later ∧
      e.At a
        (if state.host.heap.truthy value = (op == .or) then target
        else offset + if op = .or then 5 else 4)
        (value :: operands) state later := by
  have fits : e.unit.opcodes.size ≤ Code.maxOperand := by
    rw [e.compiled.size]
    exact e.compiled.small
  by_cases isOr : op = .or
  · simp only [isOr, if_true] at stands ⊢
    rcases at_.dup stands with ⟨copied, copies, at_⟩
    have second : Stands e.unit.opcodes (offset + 1) _ := (Stands.cons_iff.1 stands).2
    rcases at_.not second with ⟨negated, negates, at_⟩
    have third : Stands e.unit.opcodes (offset + 1 + 1) _ := (Stands.cons_iff.1 second).2
    rcases at_.compare third small fits with ⟨later, compares, at_⟩
    refine ⟨3, later, .step copies (.step negates (.single compares)), ?_⟩
    cases truth : state.host.heap.truthy value with
    | true =>
        rw [truth] at at_
        exact at_
    | false =>
        rw [truth] at at_
        exact at_
  · simp only [isOr, if_false] at stands ⊢
    rcases at_.dup stands with ⟨copied, copies, at_⟩
    have second : Stands e.unit.opcodes (offset + 1) _ := (Stands.cons_iff.1 stands).2
    rcases at_.compare second small fits with ⟨later, compares, at_⟩
    refine ⟨2, later, .step copies (.single compares), ?_⟩
    have other : (op == .or) = false := by simpa using isOr
    rw [other]
    cases truth : state.host.heap.truthy value with
    | true =>
        rw [truth] at at_
        exact at_
    | false =>
        rw [truth] at at_
        exact at_

end Logic

section Evaluation

variable {setting : Setting} {place : Meaning.Place} {invoke : Invoke} {state : State}

theorem evalExpression_logical {position : Position} {left right : Node} {op : Op}
    (decides : op.isLogical) :
    evalExpression setting place invoke (.control position left op right) =
      evalExpression setting place invoke left >>= fun value => fun state =>
        if state.host.heap.truthy value = (op == .or) then .ok value state
        else evalExpression setting place invoke right state := by
  have notCompared : Code.comparisonOp? op = none := by
    cases op <;> first | rfl | cases decides
  rw [evalExpression, notCompared]
  congr 1
  funext value state
  change (if state.host.heap.truthy value = (op == .or) then pure value
    else evalExpression setting place invoke right) state = _
  split <;> rfl

end Evaluation

variable {e : Execution} {a : Activation} {place : Surroundings} {drops : Bool} {least : Nat}
  {invoke : Invoke} {node : Node}

section Forms

variable {position : Position} {left right : Node} {op : Op} {offset : Nat}
  {operands : List Value} {state : State} {run : Run}

theorem follows_logical (decides : op.isLogical) (leftShape : left.IsExpression Number.IsNumber)
    (rightShape : right.IsExpression Number.IsNumber)
    (leftFollows : e.ExpressionFollows least invoke a place drops left)
    (rightFollows : e.ExpressionFollows least invoke a place drops right) :
    e.ExpressionFollows least invoke a place drops (.control position left op right) := by
  intro meets offset operands state run stands at_
  have notCompared : Code.comparisonOp? op = none := by
    cases op <;> first | rfl | cases decides
  generalize sizeEq : offset + (Node.control position left op right).expressionSize = stop
  simp only [assembleExpression, notCompared] at stands
  simp only [Node.expressionSize, decides, if_true] at sizeEq
  rcases stands_behind leftShape stands with ⟨leftStands, behind⟩
  rw [evalExpression_logical decides]
  refine .bind (leftFollows (meets.part (by simp [Node.parts])) offset operands state run
    leftStands at_) ?_
  intro value state run at_
  generalize firstEq : offset + left.expressionSize = first at behind at_ sizeEq
  have tested : Stands e.unit.opcodes (first + if op = .or then 5 else 4) (.pop ::
      assembleExpression e.functions place (first + if op = .or then 6 else 5) right) := by
    have compares := (Stands.append_iff.1 behind).2
    have behindTests := (Stands.cons_iff.1 compares).2
    by_cases isOr : op = .or
    · simp only [isOr, if_true] at behindTests ⊢
      exact behindTests
    · simp only [isOr, if_false] at behindTests ⊢
      exact behindTests
  have rightStands : Stands e.unit.opcodes (first + if op = .or then 6 else 5)
      (assembleExpression e.functions place (first + if op = .or then 6 else 5) right) := by
    have popped := (Stands.cons_iff.1 tested).2
    by_cases isOr : op = .or
    · simp only [isOr, if_true] at popped ⊢
      exact popped
    · simp only [isOr, if_false] at popped ⊢
      exact popped
  have ends : first + (if op = .or then 6 else 5) + right.expressionSize = stop := by omega
  have small := rightStands.size_le
  rw [Code.codeSize_assembleExpression _ _ rightShape, ends] at small
  rw [ends] at behind
  rcases at_.decides behind small with ⟨count, later, reaches, at_⟩
  refine Follows.fewer (.reaches reaches ?_) (Nat.le_add_right least count)
  split
  · rename_i decided
    rw [if_pos decided] at at_
    exact .pure at_
  · rename_i undecided
    rw [if_neg undecided] at at_
    rcases at_.pop tested with ⟨last, pops, at_⟩
    have place : first + (if op = .or then 5 else 4) + 1 = first + if op = .or then 6 else 5 := by
      split <;> rfl
    rw [place] at at_
    refine .step pops ?_
    rw [← ends]
    exact rightFollows (meets.part (by simp [Node.parts])) _ operands state last rightStands at_

/-- A call is followed whether its value is used or not. -/
theorem follows_call {callee : Node} {args : List Node} {used : Bool}
    (surrounds : e.Surrounds a place) (invokes : e.InvokeFollows least a.depth invoke)
    (named : callee.IsName) (argShapes : ∀ arg ∈ args, arg.IsExpression Number.IsNumber)
    (argFollows : ∀ arg ∈ args, e.ExpressionFollows least invoke a place drops arg)
    (meets : a.Meets (.call position callee args used))
    (stands : Stands e.unit.opcodes offset
      (assembleExpression e.functions place offset (.call position callee args used)))
    (at_ : e.At a offset operands state run) :
    e.Follows least
      (e.Called a (offset + (Node.call position callee args used).expressionSize) used operands)
      (e.Ended a) run
      (evalExpression e.setting ⟨a.text, a.depth, drops⟩ invoke
        (.call position callee args used) state) := by
  have few : args.length ≤ 255 :=
    (e.compiled.wellScoped e.shaped).few a.text surrounds.serves.known _ meets.self
  have count : args.length = args.length.toUInt8.toNat := by
    rw [Nat.toUInt8, UInt8.toNat_ofNat']
    omega
  have calleeInside : callee ∈ a.text.nodes := (meets.part (by simp [Node.parts])).self
  rw [assembleExpression] at stands
  rcases Stands.append_iff.1 stands with ⟨argStands, callStands⟩
  have size := Code.size_assembleExpressions e.functions place
    (fun arg member => Code.size_assembleExpression e.functions place (argShapes arg member)) offset
  rw [Code.codeSize, size] at callStands
  rw [evalExpression, Node.expressionSize, ← Nat.add_assoc]
  refine .bind (follows_expressions argShapes
    (fun arg member => meets.part (by simp [Node.parts, member])) argFollows argStands at_) ?_
  rintro values state run ⟨length, at_⟩
  rw [get_bind]
  exact at_.call callStands (length.trans count)
    (at_.memory.slot_name surrounds.serves surrounds.scope surrounds.natives named calleeInside)
    invokes

theorem stepVariable_symbol {policy : Policy} {targetPosition : Position} {name : String} :
    stepVariable policy op (.symbol targetPosition name) state =
      (yield policy (fun heap => Machine.applyUnary (Code.stepOp op) heap (state.store name)) >>=
        fun new => assign name new >>= fun _ => pure (state.store name, new)) state := rfl

theorem follows_stepBefore {operandPosition : Position} {name : String} {used : Bool}
    (surrounds : e.Surrounds a place) (steps : op.isStep)
    (meets : a.Meets (.prefixed position op (.symbol operandPosition name) used))
    (stands : Stands e.unit.opcodes offset (assembleExpression e.functions place offset
      (.prefixed position op (.symbol operandPosition name) used)))
    (at_ : e.At a offset operands state run) :
    e.Follows least (e.Called a (offset + 7) used operands) (e.Ended a) run
      (evalExpression e.setting ⟨a.text, a.depth, drops⟩ invoke
        (.prefixed position op (.symbol operandPosition name) used) state) := by
  have declared : ∃ slot, a.scope.variableSlot? name = some slot := by
    refine (surrounds.serves.serves.answers meets.self rfl).assigned name ?_
    cases op <;> first | rfl | cases steps
  have code : assembleExpression e.functions place offset
      (.prefixed position op (.symbol operandPosition name) used) =
        [.load (Code.variableAddress a.scope name), .unary (Code.stepOp op),
          if used then .fastStore (Code.variableAddress a.scope name)
          else .store (Code.variableAddress a.scope name)] := by
    rw [← surrounds.scope]
    cases op <;> first | rfl | cases steps
  have evaluates : evalExpression e.setting ⟨a.text, a.depth, drops⟩ invoke
      (.prefixed position op (.symbol operandPosition name) used) =
        stepVariable e.policy op (.symbol operandPosition name) >>= fun values =>
          pure values.2 := by
    cases op <;> first | rfl | cases steps
  rw [code] at stands
  have second : Stands e.unit.opcodes (offset + 3) _ := (Stands.cons_iff.1 stands).2
  have third : Stands e.unit.opcodes (offset + 3 + 1) _ := (Stands.cons_iff.1 second).2
  rcases at_.load stands (at_.memory.slot_variable surrounds.serves declared) with
    ⟨loaded, loads, at_⟩
  have stepped : e.Follows least (fun values => e.Called a (offset + 7) used operands values.2)
      (e.Ended a) run (stepVariable e.policy op (.symbol operandPosition name) state) := by
    rw [stepVariable_symbol]
    refine .step loads (.bind (at_.unary second) ?_)
    intro new state run at_
    cases used with
    | true =>
        rcases at_.fastStore surrounds.serves declared third with ⟨later, stores, at_⟩
        exact .step stores (.pure at_)
    | false =>
        rcases at_.store surrounds.serves declared third with ⟨later, stores, at_⟩
        exact .step stores (.pure at_)
  rw [evaluates]
  exact .bind stepped fun _ _ _ at_ => .pure at_

theorem follows_stepAfter {operandPosition : Position} {name : String} {used : Bool}
    (surrounds : e.Surrounds a place)
    (meets : a.Meets (.suffixed position op (.symbol operandPosition name) used))
    (stands : Stands e.unit.opcodes offset (assembleExpression e.functions place offset
      (.suffixed position op (.symbol operandPosition name) used)))
    (at_ : e.At a offset operands state run) :
    e.Follows least (e.Called a (offset + if used then 8 else 7) used operands) (e.Ended a) run
      (evalExpression e.setting ⟨a.text, a.depth, drops⟩ invoke
        (.suffixed position op (.symbol operandPosition name) used) state) := by
  have declared : ∃ slot, a.scope.variableSlot? name = some slot :=
    (surrounds.serves.serves.answers meets.self rfl).assigned name rfl
  rw [assembleExpression, surrounds.scope] at stands
  have second : Stands e.unit.opcodes (offset + 3) _ := (Stands.cons_iff.1 stands).2
  rcases at_.load stands (at_.memory.slot_variable surrounds.serves declared) with
    ⟨loaded, loads, at_⟩
  have stepped : e.Follows least
      (fun values => e.Called a (offset + if used then 8 else 7) used operands values.1)
      (e.Ended a) run (stepVariable e.policy op (.symbol operandPosition name) state) := by
    rw [stepVariable_symbol]
    refine .step loads ?_
    cases used with
    | true =>
        have third : Stands e.unit.opcodes (offset + 3 + 1) _ := (Stands.cons_iff.1 second).2
        have fourth : Stands e.unit.opcodes (offset + 3 + 1 + 1) _ := (Stands.cons_iff.1 third).2
        rcases at_.dup second with ⟨copied, copies, at_⟩
        refine .step copies (.bind (at_.unary third) ?_)
        intro new state run at_
        rcases at_.store surrounds.serves declared fourth with ⟨later, stores, at_⟩
        exact .step stores (.pure at_)
    | false =>
        have third : Stands e.unit.opcodes (offset + 3 + 1) _ := (Stands.cons_iff.1 second).2
        refine .bind (at_.unary second) ?_
        intro new state run at_
        rcases at_.store surrounds.serves declared third with ⟨later, stores, at_⟩
        exact .step stores (.pure at_)
  rw [evalExpression]
  exact .bind stepped fun _ _ _ at_ => .pure at_

theorem slot_empty (surrounds : e.Surrounds a place) (meets : a.Meets (.nothing position))
    {store : String → Value} {memory : Array Value} (remembers : e.Remembers a.scope store memory) :
    memory[(Code.literalAddress place.scope .empty).toNat]? = some .empty := by
  have hasSlot : a.scope.HasSlot .empty :=
    (surrounds.serves.serves.answers meets.self rfl).names
  rw [surrounds.scope]
  exact remembers.slot_scalar surrounds.serves rfl (by simp) hasSlot

theorem slot_key {entries : List (String × Node)} (surrounds : e.Surrounds a place)
    (meets : a.Meets (.dict position entries)) {entry : String × Node} (member : entry ∈ entries)
    {store : String → Value} {memory : Array Value} (remembers : e.Remembers a.scope store memory) :
    memory[(Code.literalAddress place.scope (.text entry.1)).toNat]? = some (.text entry.1) := by
  have hasSlot : a.scope.HasSlot (.text entry.1) :=
    (surrounds.serves.serves.answers meets.self rfl).names entry member
  rw [surrounds.scope]
  exact remembers.slot_scalar surrounds.serves rfl (by simp) hasSlot

end Forms

/-- The code of every expression leaves its value. -/
theorem follows_expression (surrounds : e.Surrounds a place)
    (invokes : e.InvokeFollows least a.depth invoke)
    (shape : node.IsExpression Number.IsNumber) :
    e.ExpressionFollows least invoke a place drops node := by
  induction shape with
  | @literal position value known =>
      intro meets offset operands state run stands at_
      rw [assembleExpression, surrounds.scope] at stands
      rcases at_.load stands (at_.memory.slot_literal surrounds.serves known meets.self) with
        ⟨later, loads, at_⟩
      rw [evalExpression]
      exact .step loads (.pure at_)
  | nothing position =>
      intro meets offset operands state run stands at_
      rw [assembleExpression] at stands
      rcases at_.load stands (slot_empty surrounds meets at_.memory) with ⟨later, loads, at_⟩
      rw [evalExpression]
      exact .step loads (.pure at_)
  | @name node named =>
      intro meets offset operands state run stands at_
      have held := at_.memory.slot_name surrounds.serves surrounds.scope surrounds.natives named
        meets.self
      have code : assembleExpression e.functions place offset node =
          [.load (Code.nameAddress e.functions place node)] := by
        cases named <;> rw [assembleExpression] <;> simp
      have evaluates : evalExpression e.setting ⟨a.text, a.depth, drops⟩ invoke node state =
          .ok (e.setting.meaning a.text state.store node) state := by
        cases named <;> rw [evalExpression] <;> first | rfl | simp
      have size : node.expressionSize = 3 := by
        cases named <;> rfl
      rw [code] at stands
      rcases at_.load stands held with ⟨later, loads, at_⟩
      rw [evaluates, size]
      exact .step loads (.pure at_)
  | @binary position left right op arithmetic leftShape rightShape leftFollows rightFollows =>
      intro meets offset operands state run stands at_
      rw [assembleExpression] at stands
      rw [evalExpression, Node.expressionSize]
      exact follows_both leftShape rightShape (meets.part (by simp [Node.parts]))
        (meets.part (by simp [Node.parts])) leftFollows rightFollows
        (fun offset operands first second state run stands at_ => at_.binary stands) stands at_
  | @comparison position left right op compares leftShape rightShape leftFollows rightFollows =>
      intro meets offset operands state run stands at_
      rcases Code.comparisonOp?_isSome compares with ⟨operation, found⟩
      have notLogical : op.isLogical = false := by
        cases op <;> first | rfl | cases compares
      simp only [assembleExpression, found] at stands
      simp only [evalExpression, found, Node.expressionSize, notLogical, Bool.false_eq_true,
        if_false]
      exact follows_both leftShape rightShape (meets.part (by simp [Node.parts]))
        (meets.part (by simp [Node.parts])) leftFollows rightFollows
        (fun offset operands first second state run stands at_ => at_.binary stands) stands at_
  | logical decides leftShape rightShape leftFollows rightFollows =>
      exact follows_logical decides leftShape rightShape leftFollows rightFollows
  | call named argShapes argFollows =>
      intro meets offset operands state run stands at_
      exact follows_call surrounds invokes named argShapes argFollows meets stands at_
  | @list position items itemShapes itemFollows =>
      intro meets offset operands state run stands at_
      rw [assembleExpression] at stands
      rcases Stands.append_iff.1 stands with ⟨itemStands, last⟩
      have size := Code.size_assembleExpressions e.functions place
        (fun item member => Code.size_assembleExpression e.functions place
          (itemShapes item member)) offset
      have inside := last.size_le
      rw [Code.codeSize, size] at last inside
      have few := Code.length_le_expressionsSize itemShapes
      have whole := e.compiled.size
      have small := e.compiled.small
      have count : items.length.toUInt16.toNat = items.length :=
        Code.toNat_toUInt16 (by omega)
      rw [evalExpression, Node.expressionSize, ← Nat.add_assoc]
      refine .bind (follows_expressions itemShapes
        (fun item member => meets.part (by simp [Node.parts, member])) itemFollows itemStands at_)
        ?_
      rintro values state run ⟨length, at_⟩
      exact at_.initList last (length.trans count.symm)
  | @dict position entries distinct valueShapes valueFollows =>
      intro meets offset operands state run stands at_
      rw [assembleExpression] at stands
      rcases Stands.append_iff.1 stands with ⟨entryStands, last⟩
      have size := Code.size_assembleEntries e.functions place
        (fun entry member => Code.size_assembleExpression e.functions place
          (valueShapes entry member)) offset
      have inside := last.size_le
      rw [Code.codeSize, size] at last inside
      have few := Code.length_le_entriesSize entries
      have whole := e.compiled.size
      have small := e.compiled.small
      have count : entries.length.toUInt16.toNat = entries.length :=
        Code.toNat_toUInt16 (by omega)
      rw [evalExpression, Node.expressionSize, ← Nat.add_assoc]
      refine .bind (follows_entries valueShapes
        (fun entry member => meets.part (by simp [Node.parts]; exact ⟨_, member⟩)) valueFollows
        (fun entry member state memory remembers => slot_key surrounds meets member remembers)
        entryStands at_) ?_
      rintro values state run ⟨length, at_⟩
      exact at_.initDict last (length.trans count.symm)
  | @not position operand operandShape operandFollows =>
      intro meets offset operands state run stands at_
      rw [assembleExpression] at stands
      rcases stands_behind operandShape stands with ⟨operandStands, last⟩
      simp only [evalExpression, Node.expressionSize, Op.isStep, Bool.false_eq_true, if_false,
        ← Nat.add_assoc]
      refine .bind (operandFollows (meets.part (by simp [Node.parts])) offset operands state run
        operandStands at_) ?_
      intro value state run at_
      exact at_.unary last
  | @negate position operand unfolded operandShape operandFollows =>
      intro meets offset operands state run stands at_
      have code : assembleExpression e.functions place offset
          (.prefixed position .negate operand true) =
            assembleExpression e.functions place offset operand ++ [.unary .negate] := by
        rw [assembleExpression] <;> simp
      rw [code] at stands
      rcases stands_behind operandShape stands with ⟨operandStands, last⟩
      simp only [evalExpression, Node.expressionSize, Op.isStep, Bool.false_eq_true, if_false,
        ← Nat.add_assoc]
      refine .bind (operandFollows (meets.part (by simp [Node.parts])) offset operands state run
        operandStands at_) ?_
      intro value state run at_
      exact at_.unary last
  | @stepBefore position op steps operandPosition name =>
      intro meets offset operands state run stands at_
      rw [Node.expressionSize, if_pos steps]
      exact follows_stepBefore surrounds steps meets stands at_
  | stepAfter steps operandPosition name =>
      intro meets offset operands state run stands at_
      exact follows_stepAfter surrounds meets stands at_
  | @index position body key bodyShape keyShape bodyFollows keyFollows =>
      intro meets offset operands state run stands at_
      rw [assembleExpression] at stands
      rw [evalExpression, Node.expressionSize]
      exact follows_both bodyShape keyShape (meets.part (by simp [Node.parts]))
        (meets.part (by simp [Node.parts])) bodyFollows keyFollows
        (fun offset operands first second state run stands at_ => at_.getItem stands) stands at_

end Execution

end Lehce.Meaning
