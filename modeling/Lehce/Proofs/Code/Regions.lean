import Lehce.Proofs.Code.Compiled
import Lehce.Proofs.Code.Layout

/-!
# Compiled code is in order

The assembled code of a program is laid out as `Laid` says: every expression and every
statement keeps to its scope and to its own part of the code. What this means for a unit
is said by `WellFormed`, in terms of its bytes, storages, functions and locations alone.
-/

namespace Lehce.Code

/-- The slots of a scope lie in its memory, variables behind constants, and fit into a word. -/
structure Scope.Bounded (scope : Scope) : Prop where
  variableSlots : ∀ name slot, scope.variableSlot? name = some slot →
    scope.constants.size ≤ slot ∧ slot < scope.constants.size + scope.locals.size
  distinct : ∀ name other slot, scope.variableSlot? name = some slot →
    scope.variableSlot? other = some slot → name = other
  constantSlots : ∀ key slot, scope.constantSlot? key = some slot → slot < scope.constants.size
  fits : scope.constants.size + scope.locals.size ≤ maxOperand

theorem toNat_toUInt16 {number : Nat} (small : number ≤ maxOperand) :
    number.toUInt16.toNat = number := by
  rw [Nat.toUInt16, UInt16.toNat_ofNat']
  simp only [maxOperand] at small
  omega

theorem Scope.Serves.bounded {functions : Functions} {natives : Resolver} {params : List String}
    {body : List Node} {scope : Scope} (serves : scope.Serves functions natives params body) :
    scope.Bounded := by
  refine ⟨?_, ?_, ?_, serves.fits⟩
  · intro name slot found
    rcases (serves.holdsVariables.slot_iff name slot).1 found with ⟨place, rfl, listed⟩
    have inside := (List.getElem?_eq_some_iff.1 listed).1
    rw [Array.length_toList] at inside
    omega
  · intro name other slot found otherFound
    rcases (serves.holdsVariables.slot_iff name slot).1 found with ⟨place, rfl, listed⟩
    rcases (serves.holdsVariables.slot_iff other _).1 otherFound with
      ⟨otherPlace, same, otherListed⟩
    have places : otherPlace = place := by omega
    rw [places, listed] at otherListed
    exact Option.some.inj otherListed
  · intro key slot found
    have listed := (serves.holdsConstants.slot_iff key).1 (by rw [found]; rfl)
    rcases serves.holdsConstants.slot listed with ⟨same, sameFound, inside, _⟩
    rw [found] at sameFound
    cases sameFound
    exact inside

theorem Scope.bounded_empty : Scope.Bounded {} := by
  refine ⟨?_, ?_, ?_, by simp⟩
  · intro name slot found
    simp [variableSlot?] at found
  · intro name other slot found
    simp [variableSlot?] at found
  · intro key slot found
    simp [constantSlot?] at found

section Addresses

variable {functions : Functions} {place : Surroundings}

theorem variableAddress_bounds (bounded : place.scope.Bounded) {name : String}
    (declared : ∃ slot, place.scope.variableSlot? name = some slot) :
    place.scope.constants.size ≤ (variableAddress place.scope name).toNat ∧
      (variableAddress place.scope name).toNat <
        place.scope.constants.size + place.scope.locals.size := by
  rcases declared with ⟨slot, found⟩
  have bounds := bounded.variableSlots name slot found
  have fits := bounded.fits
  rw [variableAddress, found, Option.getD_some, toNat_toUInt16 (by omega)]
  exact bounds

theorem foundAddress_lt (bounded : place.scope.Bounded)
    {found : Option (ConstantKey × FunctionRef)} {constant : ConstantKey × FunctionRef}
    (resolved : found = some constant) (hasSlot : place.scope.HasSlot constant.1) :
    (foundAddress place.scope found).toNat <
      place.scope.constants.size + place.scope.locals.size := by
  rcases hasSlot with ⟨slot, slotFound⟩
  have inside := bounded.constantSlots _ slot slotFound
  have fits := bounded.fits
  rw [foundAddress, resolved, Option.bind_some, slotFound, Option.getD_some,
    toNat_toUInt16 (by omega)]
  omega

theorem literalAddress_lt (bounded : place.scope.Bounded) {value : Datum} {key : ConstantKey}
    (known : ConstantKey.ofDatum? value = some key) (hasSlot : place.scope.HasSlot key) :
    (literalAddress place.scope value).toNat <
      place.scope.constants.size + place.scope.locals.size := by
  rcases hasSlot with ⟨slot, slotFound⟩
  have inside := bounded.constantSlots _ slot slotFound
  have fits := bounded.fits
  rw [literalAddress, known, Option.bind_some, slotFound, Option.getD_some,
    toNat_toUInt16 (by omega)]
  omega

theorem nameAddress_lt (bounded : place.scope.Bounded) {node : Node} (named : node.IsName)
    (answers : place.scope.Answers functions place.natives node) :
    (nameAddress functions place node).toNat <
      place.scope.constants.size + place.scope.locals.size := by
  cases named with
  | path position parts =>
      rcases answers.names with ⟨constant, resolved, hasSlot⟩
      exact foundAddress_lt bounded resolved hasSlot
  | symbol position name =>
      rw [nameAddress]
      cases found : place.scope.variableSlot? name with
      | some slot =>
          rw [Option.isSome_some, if_pos rfl]
          exact (variableAddress_bounds bounded ⟨slot, found⟩).2
      | none =>
          rcases answers.names found with ⟨constant, resolved, hasSlot⟩
          rw [Option.isSome_none, if_neg Bool.false_ne_true]
          exact foundAddress_lt bounded resolved hasSlot

end Addresses

section Expressions

variable {allowed : Float → Prop} {functions : Functions} {place : Surroundings}
  {blamed : Fault → Prop} {goal : Nat → Prop}

attribute [local simp] Instruction.target? Instruction.KeepsTo Scope.Admits

/-- Instructions that do not jump are in order when the scope admits them. -/
theorem laid_instructions {instructions : List Instruction}
    (admits : ∀ instruction ∈ instructions, place.scope.Admits instruction)
    (straight : ∀ instruction ∈ instructions, instruction.target? = none) (start : Nat) :
    Laid functions place.scopes place.scope goal start (plainPieces instructions) [] := by
  refine ⟨?_, by simp⟩
  intro offset instruction standing free
  have member := mem_of_placed standing
  simp only [plainPieces, List.mem_map, Piece.plain.injEq, exists_eq_right] at member
  refine ⟨admits instruction member, ?_⟩
  intro target leads
  rw [straight instruction member] at leads
  cases leads

/-- The code of an expression is in order. -/
def ExpressionLaid (functions : Functions) (blamed : Fault → Prop) (place : Surroundings)
    (node : Node) : Prop :=
  ∀ (goal : Nat → Prop) (start : Nat), start + node.expressionSize ≤ maxOperand →
    Ready functions blamed place node →
      Laid functions place.scopes place.scope goal start
        (plainPieces (assembleExpression functions place start node)) []

theorem laid_both {left right : Node} (leftShape : left.IsExpression allowed)
    (leftLaid : ExpressionLaid functions blamed place left)
    (rightLaid : ExpressionLaid functions blamed place right)
    (leftReady : Ready functions blamed place left)
    (rightReady : Ready functions blamed place right) {instruction : Instruction}
    (admits : place.scope.Admits instruction) (straight : instruction.target? = none)
    {start : Nat} (small : start + left.expressionSize + right.expressionSize ≤ maxOperand) :
    Laid functions place.scopes place.scope goal start (plainPieces
      (assembleExpression functions place start left ++
        (assembleExpression functions place (start + left.expressionSize) right ++
          [instruction]))) [] := by
  have size := size_assembleExpression functions place leftShape start
  have last : Laid functions place.scopes place.scope goal (start + left.expressionSize +
      piecesSize (plainPieces (assembleExpression functions place (start + left.expressionSize)
        right))) (plainPieces [instruction]) [] :=
    laid_instructions (by simpa using admits) (by simpa using straight) _
  have tail := (rightLaid goal (start + left.expressionSize) (by omega) rightReady).append last
  rw [plainPieces_append, plainPieces_append]
  apply (leftLaid goal start (by omega) leftReady).append
  rw [size]
  exact tail

theorem laid_expressions {nodes : List Node} (shapes : ∀ node ∈ nodes, node.IsExpression allowed)
    (laid : ∀ node ∈ nodes, ExpressionLaid functions blamed place node)
    (ready : ∀ node ∈ nodes, Ready functions blamed place node) {start : Nat}
    (small : start + Node.expressionsSize nodes ≤ maxOperand) :
    Laid functions place.scopes place.scope goal start
      (plainPieces (assembleExpressions functions place start nodes)) [] := by
  induction nodes generalizing start with
  | nil => exact .nil
  | cons node rest ih =>
      rcases List.forall_mem_cons.1 shapes with ⟨shape, restShapes⟩
      rcases List.forall_mem_cons.1 laid with ⟨nodeLaid, restLaid⟩
      rcases List.forall_mem_cons.1 ready with ⟨nodeReady, restReady⟩
      simp only [Node.expressionsSize] at small
      rw [assembleExpressions, plainPieces_append]
      apply (nodeLaid goal start (by omega) nodeReady).append
      rw [size_assembleExpression functions place shape]
      exact ih restShapes restLaid restReady (by omega)

theorem laid_entries (bounded : place.scope.Bounded) {entries : List (String × Node)}
    (shapes : ∀ entry ∈ entries, entry.2.IsExpression allowed)
    (laid : ∀ entry ∈ entries, ExpressionLaid functions blamed place entry.2)
    (ready : ∀ entry ∈ entries, Ready functions blamed place entry.2)
    (keys : ∀ entry ∈ entries, place.scope.HasSlot (.text entry.1)) {start : Nat}
    (small : start + Node.entriesSize entries ≤ maxOperand) :
    Laid functions place.scopes place.scope goal start
      (plainPieces (assembleEntries functions place start entries)) [] := by
  induction entries generalizing start with
  | nil => exact .nil
  | cons entry rest ih =>
      rcases List.forall_mem_cons.1 shapes with ⟨shape, restShapes⟩
      rcases List.forall_mem_cons.1 laid with ⟨entryLaid, restLaid⟩
      rcases List.forall_mem_cons.1 ready with ⟨entryReady, restReady⟩
      rcases List.forall_mem_cons.1 keys with ⟨key, restKeys⟩
      simp only [Node.entriesSize] at small
      have loads : Laid functions place.scopes place.scope goal start
          (plainPieces [.load (literalAddress place.scope (.text entry.1))]) [] :=
        laid_instructions (by simpa using literalAddress_lt bounded rfl key) (by simp) _
      have value := entryLaid goal (start + 3) (by omega) entryReady
      have others : Laid functions place.scopes place.scope goal
          (start + 3 + piecesSize (plainPieces (assembleExpression functions place (start + 3)
            entry.2))) (plainPieces (assembleEntries functions place
              (start + 3 + entry.2.expressionSize) rest)) [] := by
        rw [size_assembleExpression functions place shape]
        exact ih restShapes restLaid restReady restKeys (by omega)
      rw [assembleEntries, ← List.singleton_append, plainPieces_append, plainPieces_append]
      exact loads.append (value.append others)

theorem laid_call (used : Bool) (bounded : place.scope.Bounded) {position : Position}
    {callee : Node} {args : List Node} (named : callee.IsName)
    (argShapes : ∀ arg ∈ args, arg.IsExpression allowed)
    (argLaid : ∀ arg ∈ args, ExpressionLaid functions blamed place arg) :
    ExpressionLaid functions blamed place (.call position callee args used) := by
  intro goal start small ready
  simp only [Node.expressionSize] at small
  have slot := nameAddress_lt bounded named (ready.part (by simp [Node.parts])).self
  rw [assembleExpression, plainPieces_append]
  apply (laid_expressions argShapes argLaid
    (fun arg member => ready.part (by simp [Node.parts, member])) (by omega)).append
  exact laid_instructions (by simpa using slot) (by simp) _

theorem laid_stepBefore (used : Bool) (bounded : place.scope.Bounded) {position : Position}
    {op : Op} (steps : op.isStep) {operandPosition : Position} {name : String} :
    ExpressionLaid functions blamed place
      (.prefixed position op (.symbol operandPosition name) used) := by
  intro goal start small ready
  have slot := variableAddress_bounds bounded (ready.self.assigned name (by
    cases op <;> first | rfl | cases steps))
  have code : assembleExpression functions place start
      (.prefixed position op (.symbol operandPosition name) used) =
        [.load (variableAddress place.scope name), .unary (stepOp op),
          if used then .fastStore (variableAddress place.scope name)
          else .store (variableAddress place.scope name)] := by
    cases op <;> first | rfl | cases steps
  rw [code]
  cases used <;> exact laid_instructions (by simpa using ⟨slot.2, slot⟩) (by simp) start

theorem laid_stepAfter (used : Bool) (bounded : place.scope.Bounded) {position : Position}
    {op : Op} {operandPosition : Position} {name : String} :
    ExpressionLaid functions blamed place
      (.suffixed position op (.symbol operandPosition name) used) := by
  intro goal start small ready
  have slot := variableAddress_bounds bounded (ready.self.assigned name rfl)
  rw [assembleExpression]
  cases used <;>
    exact laid_instructions (by simpa [steppedAddress] using ⟨slot.2, slot⟩) (by simp) start

/-- The right operand of `ve` or `veya` is skipped when the left one decides. -/
theorem laid_deciding {left right : Node} (leftShape : left.IsExpression allowed)
    (rightShape : right.IsExpression allowed)
    (leftLaid : ExpressionLaid functions blamed place left)
    (rightLaid : ExpressionLaid functions blamed place right)
    (leftReady : Ready functions blamed place left)
    (rightReady : Ready functions blamed place right) {tests : List Instruction}
    (admits : ∀ instruction ∈ tests, place.scope.Admits instruction)
    (straight : ∀ instruction ∈ tests, instruction.target? = none) {start middle stop : Nat}
    (middleEq : middle = start + left.expressionSize + piecesSize (plainPieces tests) + 4)
    (stopEq : stop = middle + right.expressionSize) (small : stop ≤ maxOperand) :
    Laid functions place.scopes place.scope goal start (plainPieces
      (assembleExpression functions place start left ++ (tests ++ .compare stop.toUInt16 :: .pop ::
        assembleExpression functions place middle right))) [] := by
  have leftSize := size_assembleExpression functions place leftShape start
  have rightSize := size_assembleExpression functions place rightShape middle
  have skips : Laid functions place.scopes place.scope (· = stop)
      (start + left.expressionSize + piecesSize (plainPieces tests))
      (plainPieces [.compare stop.toUInt16]) [] := by
    apply Laid.single
    rintro instruction ⟨⟩
    refine ⟨trivial, ?_⟩
    rintro target ⟨⟩
    exact toNat_toUInt16 small
  have pops : Laid functions place.scopes place.scope (· = stop)
      (start + left.expressionSize + piecesSize (plainPieces tests) + 3) (plainPieces [.pop]) [] :=
    laid_instructions (by simp) (by simp) _
  have rightPart := rightLaid (· = stop) middle (by omega) rightReady
  have rest : Laid functions place.scopes place.scope (· = stop) (start + left.expressionSize)
      (plainPieces (tests ++ .compare stop.toUInt16 :: .pop ::
        assembleExpression functions place middle right)) [] := by
    rw [plainPieces_append]
    apply (laid_instructions admits straight _).append
    apply skips.append
    apply pops.append
    rw [middleEq] at rightPart ⊢
    exact rightPart
  have whole : Laid functions place.scopes place.scope (· = stop) start (plainPieces
      (assembleExpression functions place start left ++ (tests ++ .compare stop.toUInt16 :: .pop ::
        assembleExpression functions place middle right))) [] := by
    rw [plainPieces_append]
    apply (leftLaid (· = stop) start (by omega) leftReady).append
    rw [leftSize]
    exact rest
  apply whole.reach
  rintro target rfl
  refine .inl (.inl ?_)
  simp only [plainPieces_append, plainPieces_cons, piecesSize_append, piecesSize_cons, leftSize,
    rightSize, Piece.size_plain, Instruction.opcode, Opcode.operandSize]
  omega

theorem laid_logical {position : Position} {left right : Node} {op : Op} (decides : op.isLogical)
    (leftShape : left.IsExpression allowed) (rightShape : right.IsExpression allowed)
    (leftLaid : ExpressionLaid functions blamed place left)
    (rightLaid : ExpressionLaid functions blamed place right) :
    ExpressionLaid functions blamed place (.control position left op right) := by
  intro goal start small ready
  have leftReady : Ready functions blamed place left := ready.part (by simp [Node.parts])
  have rightReady : Ready functions blamed place right := ready.part (by simp [Node.parts])
  simp only [Node.expressionSize, decides, if_true] at small
  cases op <;> cases decides <;>
  · rw [assembleExpression]
    exact laid_deciding leftShape rightShape leftLaid rightLaid leftReady rightReady
      (by simp) (by simp) rfl rfl (by simp at small ⊢; omega)

/-- The code of every expression is in order. -/
theorem laid_expression (bounded : place.scope.Bounded) {node : Node}
    (shape : node.IsExpression allowed) : ExpressionLaid functions blamed place node := by
  induction shape with
  | literal known =>
      intro goal start small ready
      rcases ready.self.names with ⟨key, keyEq, hasSlot⟩
      rw [assembleExpression]
      exact laid_instructions (by simpa using literalAddress_lt bounded keyEq hasSlot) (by simp) _
  | nothing position =>
      intro goal start small ready
      have hasSlot : place.scope.HasSlot .empty := ready.self.names
      have slot : (literalAddress place.scope .empty).toNat < _ :=
        literalAddress_lt bounded rfl hasSlot
      rw [assembleExpression]
      exact laid_instructions (by simpa using slot) (by simp) _
  | name named =>
      intro goal start small ready
      have slot := nameAddress_lt bounded named ready.self
      cases named <;>
      · rw [assembleExpression]
        · exact laid_instructions (by simpa using slot) (by simp) _
        all_goals simp
  | binary arithmetic leftShape rightShape leftLaid rightLaid =>
      intro goal start small ready
      simp only [Node.expressionSize] at small
      rw [assembleExpression]
      exact laid_both leftShape leftLaid rightLaid (ready.part (by simp [Node.parts]))
        (ready.part (by simp [Node.parts])) (by simp) rfl (by omega)
  | @comparison position left right op compares leftShape rightShape leftLaid rightLaid =>
      intro goal start small ready
      rcases comparisonOp?_isSome compares with ⟨operation, found⟩
      have notLogical : op.isLogical = false := by
        cases op <;> first | rfl | cases compares
      simp only [Node.expressionSize, notLogical, Bool.false_eq_true, if_false] at small
      rw [assembleExpression, found]
      exact laid_both leftShape leftLaid rightLaid (ready.part (by simp [Node.parts]))
        (ready.part (by simp [Node.parts])) (by simp) rfl (by omega)
  | logical decides leftShape rightShape leftLaid rightLaid =>
      exact laid_logical decides leftShape rightShape leftLaid rightLaid
  | call named argShapes argLaid => exact laid_call true bounded named argShapes argLaid
  | list itemShapes itemLaid =>
      intro goal start small ready
      simp only [Node.expressionSize] at small
      rw [assembleExpression, plainPieces_append]
      apply (laid_expressions itemShapes itemLaid
        (fun item member => ready.part (by simp [Node.parts, member])) (by omega)).append
      exact laid_instructions (by simp) (by simp) _
  | dict distinct valueShapes valueLaid =>
      intro goal start small ready
      simp only [Node.expressionSize] at small
      rw [assembleExpression, plainPieces_append]
      apply (laid_entries bounded valueShapes valueLaid
        (fun entry member => ready.part (by simp [Node.parts]; exact ⟨_, member⟩))
        ready.self.names (by omega)).append
      exact laid_instructions (by simp) (by simp) _
  | not operandShape operandLaid =>
      intro goal start small ready
      simp only [Node.expressionSize, Op.isStep, Bool.false_eq_true, if_false] at small
      rw [assembleExpression, plainPieces_append]
      apply (operandLaid goal start (by omega) (ready.part (by simp [Node.parts]))).append
      exact laid_instructions (by simp) (by simp) _
  | negate unfolded operandShape operandLaid =>
      intro goal start small ready
      simp only [Node.expressionSize, Op.isStep, Bool.false_eq_true, if_false] at small
      simp only [assembleExpression, plainPieces_append]
      apply (operandLaid goal start (by omega) (ready.part (by simp [Node.parts]))).append
      exact laid_instructions (by simp) (by simp) _
  | stepBefore steps operandPosition name => exact laid_stepBefore true bounded steps
  | stepAfter steps operandPosition name => exact laid_stepAfter true bounded
  | index bodyShape keyShape bodyLaid keyLaid =>
      intro goal start small ready
      simp only [Node.expressionSize] at small
      rw [assembleExpression]
      exact laid_both bodyShape bodyLaid keyLaid (ready.part (by simp [Node.parts]))
        (ready.part (by simp [Node.parts])) (by simp) rfl (by omega)

end Expressions

section Statements

variable {allowed : Float → Prop} {functions : Functions} {place : Surroundings}
  {blamed : Fault → Prop} {goal : Nat → Prop}

/-- The code of a statement is in order. -/
def StatementLaid (functions : Functions) (blamed : Fault → Prop) (place : Surroundings)
    (node : Node) : Prop :=
  ∀ (goal : Nat → Prop) (start : Nat), start + node.statementSize place.drops ≤ maxOperand →
    BodyReady functions blamed place [node] (statementBodies place.drops start node) →
      Laid functions place.scopes place.scope goal start
        (assembleStatement functions place start node) (statementBodies place.drops start node)

attribute [local simp] Instruction.target? Instruction.KeepsTo Scope.Admits

theorem laid_statements {nodes : List Node} {inLoop inFunction : Bool}
    (shapes : ∀ node ∈ nodes, node.IsStatement allowed inLoop inFunction)
    (laid : ∀ node ∈ nodes, StatementLaid functions blamed place node) {start : Nat}
    (small : start + Node.statementsSize place.drops nodes ≤ maxOperand)
    (ready : BodyReady functions blamed place nodes (statementsBodies place.drops start nodes)) :
    Laid functions place.scopes place.scope goal start
      (assembleStatements functions place start nodes)
      (statementsBodies place.drops start nodes) := by
  induction nodes generalizing start with
  | nil => exact .nil
  | cons node rest ih =>
      rcases List.forall_mem_cons.1 shapes with ⟨shape, restShapes⟩
      rcases List.forall_mem_cons.1 laid with ⟨nodeLaid, restLaid⟩
      rcases ready with ⟨here, known, inside⟩
      simp only [statementsBodies, List.forall_mem_append, List.forall_mem_cons] at here known inside
      simp only [Node.statementsSize] at small
      have size := size_assembleStatement functions place shape start
      apply (nodeLaid goal start (by omega)
        ⟨by simpa using here.1, known.1, inside.1⟩).append
      rw [size]
      exact ih restShapes restLaid (by omega) ⟨here.2, known.2, inside.2⟩

theorem laid_valued {node : Node} (valued : node.isValued)
    (laid : ExpressionLaid functions blamed place node) :
    StatementLaid functions blamed place node := by
  intro goal start small ready
  rw [statementSize_of_valued place.drops valued] at small
  rw [statementBodies_of_valued place.drops start valued] at ready ⊢
  rw [assembleStatement_of_valued functions place start valued, plainPieces_append]
  apply (laid goal start (by omega) (ready.here node List.mem_cons_self)).append
  split
  · exact laid_instructions (by simp) (by simp) _
  · exact .nil

theorem laid_assignment (bounded : place.scope.Bounded) {position targetPosition : Position}
    {op : Op} {name : String} {value : Node} (valueShape : value.IsExpression allowed) :
    StatementLaid functions blamed place
      (.assignment position (.symbol targetPosition name) op value) := by
  intro goal start small ready
  have self := ready.here _ List.mem_cons_self
  have slot := variableAddress_bounds bounded (self.self.assigned name rfl)
  have valueReady : Ready functions blamed place value := self.part (by simp [Node.parts])
  simp only [Node.statementSize] at small
  simp only [assembleStatement, statementBodies, steppedAddress, plainPieces_append]
  have stores : ∀ offset, Laid functions place.scopes place.scope goal offset
      (plainPieces [.store (variableAddress place.scope name)]) [] :=
    laid_instructions (by simpa using slot) (by simp)
  by_cases simple : op = .assign
  · simp only [simple, if_true] at small ⊢
    exact (laid_expression bounded valueShape goal start (by omega) valueReady).append (stores _)
  · simp only [simple, if_false, plainPieces_cons, plainPieces_append] at small ⊢
    have loads : Laid functions place.scopes place.scope goal start
        (plainPieces [.load (variableAddress place.scope name)]) [] :=
      laid_instructions (by simpa using slot.2) (by simp) _
    have computes : ∀ offset, Laid functions place.scopes place.scope goal offset
        (plainPieces [assignedOp op]) [] :=
      laid_instructions (by simp [assignedOp]) (by simp [assignedOp])
    have reads := laid_expression bounded valueShape goal (start + 3) (by omega) valueReady
    exact (loads.append (reads.append (computes _))).append (stores _)

theorem laid_itemAssignment (bounded : place.scope.Bounded) {position targetPosition : Position}
    {op : Op} {body key value : Node} (bodyShape : body.IsExpression allowed)
    (keyShape : key.IsExpression allowed) (valueShape : value.IsExpression allowed) :
    StatementLaid functions blamed place
      (.assignment position (.index targetPosition body key) op value) := by
  intro goal start small ready
  have self := ready.here _ List.mem_cons_self
  have target : Ready functions blamed place (.index targetPosition body key) :=
    self.part (by simp [Node.parts])
  have valueReady : Ready functions blamed place value := self.part (by simp [Node.parts])
  have bodySize := size_assembleExpression functions place bodyShape start
  have keySize := size_assembleExpression functions place keyShape (start + body.expressionSize)
  simp only [Node.statementSize] at small
  simp only [assembleStatement, statementBodies, plainPieces_append]
  apply (laid_expression bounded bodyShape goal start (by omega)
    (target.part (by simp [Node.parts]))).append
  rw [bodySize]
  apply (laid_expression bounded keyShape goal (start + body.expressionSize) (by omega)
    (target.part (by simp [Node.parts]))).append
  rw [keySize]
  have stores : ∀ offset, Laid functions place.scopes place.scope goal offset
      (plainPieces [.setItem]) [] := laid_instructions (by simp) (by simp)
  by_cases simple : op = .assign
  · simp only [simple, if_true] at small ⊢
    exact (laid_expression bounded valueShape goal _ (by omega) valueReady).append (stores _)
  · simp only [simple, if_false, plainPieces_cons, plainPieces_append] at small ⊢
    have reads : Laid functions place.scopes place.scope goal
        (start + body.expressionSize + key.expressionSize) (plainPieces [.dup2, .getItem]) [] :=
      laid_instructions (by simp) (by simp) _
    have computes : ∀ offset, Laid functions place.scopes place.scope goal offset
        (plainPieces [assignedOp op]) [] :=
      laid_instructions (by simp [assignedOp]) (by simp [assignedOp])
    have takes := laid_expression bounded valueShape goal
      (start + body.expressionSize + key.expressionSize + 2) (by omega) valueReady
    exact (reads.append (takes.append (computes _))).append (stores _)

/-- A jump is in order where its target is a goal. -/
theorem laid_jump {start target : Nat} {jump : UInt16 → Instruction} (isJump : IsJump jump)
    (small : target ≤ maxOperand) (goes : goal target) {rest : List Piece} {bodies : List Body}
    (following : Laid functions place.scopes place.scope goal (start + 3) rest bodies) :
    Laid functions place.scopes place.scope goal start
      (.plain (jump target.toUInt16) :: rest) bodies := by
  have first : Laid functions place.scopes place.scope goal start
      [.plain (jump target.toUInt16)] [] := by
    apply Laid.single
    rintro instruction ⟨⟩
    cases isJump <;>
    · refine ⟨trivial, ?_⟩
      rintro next ⟨⟩
      rw [toNat_toUInt16 small]
      exact goes
  have size : start + piecesSize [.plain (jump target.toUInt16)] = start + 3 := by
    cases isJump <;> rfl
  exact first.append_at size following

theorem laid_branch (bounded : place.scope.Bounded) {position bodyPosition : Position}
    {condition : Node} {body : List Node} {inLoop inFunction : Bool}
    (conditionShape : condition.IsExpression allowed)
    (bodyShapes : ∀ item ∈ body, item.IsStatement allowed inLoop inFunction)
    (bodyLaid : ∀ item ∈ body, StatementLaid functions blamed place item) :
    StatementLaid functions blamed place (.branch position condition bodyPosition body none) := by
  intro goal start small ready
  rcases ready with ⟨here, known, inside⟩
  have self := here _ List.mem_cons_self
  have conditionSize := size_assembleExpression functions place conditionShape start
  have bodySize := size_assembleStatements functions place
    (fun item member => size_assembleStatement functions place (bodyShapes item member))
    (start + condition.expressionSize + 3)
  simp only [Node.statementSize, Nat.add_zero] at small
  simp only [statementBodies, List.append_nil] at known inside ⊢
  simp only [assembleStatement]
  generalize secondEq : start + condition.expressionSize + 3 +
    Node.statementsSize place.drops body = second
  have whole : Laid functions place.scopes place.scope (· = second) start
      (plainPieces (assembleExpression functions place start condition) ++
        .plain (.compare second.toUInt16) ::
          assembleStatements functions place (start + condition.expressionSize + 3) body)
      ([] ++ statementsBodies place.drops (start + condition.expressionSize + 3) body) := by
    apply (laid_expression bounded conditionShape _ start (by omega)
      (self.part (by simp [Node.parts]))).append_at (by rw [conditionSize])
    refine laid_jump .compare (by omega) ?_ ?_
    · rfl
    · exact laid_statements bodyShapes bodyLaid (by omega)
        ⟨fun item member => self.part (by simp [Node.parts, member]), known, inside⟩
  apply whole.reach
  rintro target rfl
  refine .inl (.inl ?_)
  simp only [piecesSize_append, piecesSize_cons, conditionSize, bodySize, Piece.size_plain,
    Instruction.opcode, Opcode.operandSize]
  omega

theorem laid_branchOther (bounded : place.scope.Bounded) {position bodyPosition : Position}
    {condition other : Node} {body : List Node} {inLoop inFunction : Bool}
    (conditionShape : condition.IsExpression allowed)
    (bodyShapes : ∀ item ∈ body, item.IsStatement allowed inLoop inFunction)
    (bodyLaid : ∀ item ∈ body, StatementLaid functions blamed place item)
    (otherSize : ∀ start, piecesSize (assembleStatement functions place start other) =
      other.statementSize place.drops)
    (otherLaid : StatementLaid functions blamed place other) :
    StatementLaid functions blamed place
      (.branch position condition bodyPosition body (some other)) := by
  intro goal start small ready
  rcases ready with ⟨here, known, inside⟩
  have self := here _ List.mem_cons_self
  have conditionSize := size_assembleExpression functions place conditionShape start
  have bodySize := size_assembleStatements functions place
    (fun item member => size_assembleStatement functions place (bodyShapes item member))
    (start + condition.expressionSize + 3)
  simp only [Node.statementSize] at small
  simp only [statementBodies, List.forall_mem_append] at known inside ⊢
  simp only [assembleStatement]
  generalize firstEq : start + condition.expressionSize + 3 = first at *
  generalize otherEq : first + Node.statementsSize place.drops body + 3 = second at *
  generalize stopEq : second + other.statementSize place.drops = stop
  have tests := laid_expression bounded conditionShape (fun next => next = second ∨ next = stop)
    start (by omega) (self.part (by simp [Node.parts]))
  have bodyPart : Laid functions place.scopes place.scope (fun next => next = second ∨ next = stop)
      first (assembleStatements functions place first body)
      (statementsBodies place.drops first body) :=
    laid_statements bodyShapes bodyLaid (by omega)
      ⟨fun item member => self.part (by simp [Node.parts, member]), known.1, inside.1⟩
  have otherPart := otherLaid (fun next => next = second ∨ next = stop) second (by omega)
    ⟨by simpa using self.part (by simp [Node.parts]), known.2, inside.2⟩
  have skips : Laid functions place.scopes place.scope (fun next => next = second ∨ next = stop)
      (first + Node.statementsSize place.drops body) [.plain (.jump stop.toUInt16)] [] :=
    laid_jump .jump (by omega) (.inr rfl) .nil
  have chooses : Laid functions place.scopes place.scope (fun next => next = second ∨ next = stop)
      (start + condition.expressionSize) [.plain (.compare second.toUInt16)] [] :=
    laid_jump .compare (by omega) (.inl rfl) .nil
  have whole := tests.append_at (by rw [conditionSize]) (chooses.append_at firstEq
    (bodyPart.append_at (by rw [bodySize]) (skips.append_at otherEq otherPart)))
  apply whole.reach
  rintro target (rfl | rfl)
  · left
    apply tests.isBoundary_append_at (by rw [conditionSize])
    apply chooses.isBoundary_append_at firstEq
    apply bodyPart.isBoundary_append_at (by rw [bodySize])
    exact skips.isBoundary_append_at otherEq otherPart.isBoundary_start
  · refine .inl (.inl ?_)
    simp only [piecesSize_append, piecesSize_cons, piecesSize_nil, conditionSize, bodySize,
      otherSize, Piece.size_plain, Instruction.opcode, Opcode.operandSize]
    omega

theorem laid_block {position : Position} {items : List Node} {inLoop inFunction : Bool}
    (shapes : ∀ item ∈ items, item.IsStatement allowed inLoop inFunction)
    (laid : ∀ item ∈ items, StatementLaid functions blamed place item) :
    StatementLaid functions blamed place (.block position items) := by
  intro goal start small ready
  rcases ready with ⟨here, known, inside⟩
  have self := here _ List.mem_cons_self
  simp only [Node.statementSize] at small
  simp only [statementBodies] at known inside ⊢
  simp only [assembleStatement]
  exact laid_statements shapes laid small
    ⟨fun item member => self.part (by simp [Node.parts, member]), known, inside⟩

/-- The body of a loop is in order once it is known where the loop starts and stops. -/
theorem laid_looping {body : List Node} {inFunction : Bool}
    (shapes : ∀ item ∈ body, item.IsStatement allowed true inFunction)
    (laid : ∀ item ∈ body, StatementLaid functions blamed place.looping item)
    {start : Nat} (small : start + Node.statementsSize true body ≤ maxOperand)
    (ready : BodyReady functions blamed place body (statementsBodies true start body))
    (first stop : Nat) (firstSmall : first ≤ maxOperand) (stopSmall : stop ≤ maxOperand) :
    Laid functions place.scopes place.scope (fun next => next = first ∨ next = stop) start
      ((assembleStatements functions place.looping start body).map
        (Piece.fill .continues first ∘ Piece.fill .breaks stop))
      (statementsBodies true start body) := by
  have readyInside : BodyReady functions blamed place.looping body
      (statementsBodies place.looping.drops start body) := by
    rw [looping_drops]
    exact ⟨fun item member => ⟨(ready.here item member).answers, (ready.here item member).blames⟩,
      ready.known, ready.inside⟩
  have inner : Laid functions place.scopes place.scope (fun _ => False) start
      (assembleStatements functions place.looping start body) (statementsBodies true start body) := by
    have inside : Laid functions place.scopes place.scope (fun _ => False) start _ _ :=
      laid_statements shapes laid (by rw [looping_drops]; exact small) readyInside
    rw [looping_drops] at inside
    exact inside
  rw [← List.map_map]
  apply ((inner.fill .breaks stopSmall).fill .continues firstSmall).reach
  rintro target (rfl | rfl | never)
  · exact .inr (.inl rfl)
  · exact .inr (.inr rfl)
  · exact never.elim

theorem laid_endlessLoop {position bodyPosition : Position} {body : List Node} {inFunction : Bool}
    (bodyShapes : ∀ item ∈ body, item.IsStatement allowed true inFunction)
    (bodyLaid : ∀ item ∈ body, StatementLaid functions blamed place.looping item) :
    StatementLaid functions blamed place (.endlessLoop position bodyPosition body) := by
  intro goal start small ready
  rcases ready with ⟨here, known, inside⟩
  have self := here _ List.mem_cons_self
  have size := size_looping functions place bodyShapes start
  simp only [Node.statementSize] at small
  simp only [statementBodies] at known inside ⊢
  simp only [assembleStatement]
  generalize stopEq : start + Node.statementsSize true body + 3 = stop
  have loops := laid_looping bodyShapes bodyLaid (by omega)
    ⟨fun item member => self.part (by simp [Node.parts, member]), known, inside⟩ start stop
    (by omega) (by omega)
  have again : Laid functions place.scopes place.scope (fun next => next = start ∨ next = stop)
      (start + Node.statementsSize true body) [.plain (.jump start.toUInt16)] [] :=
    laid_jump .jump (by omega) (.inl rfl) .nil
  have whole := loops.append_at (by simp only [← List.map_map, piecesSize_map_fill, size]) again
  rw [List.append_nil] at whole
  apply whole.reach
  rintro target (rfl | rfl)
  · exact .inl whole.isBoundary_start
  · refine .inl (.inl ?_)
    simp only [← List.map_map, piecesSize_append, piecesSize_map_fill, piecesSize_cons,
      piecesSize_nil, size, Piece.size_plain, Instruction.opcode, Opcode.operandSize]
    omega

theorem laid_whileLoop (bounded : place.scope.Bounded) {position bodyPosition : Position}
    {condition : Node} {body : List Node} {inFunction : Bool}
    (conditionShape : condition.IsExpression allowed)
    (bodyShapes : ∀ item ∈ body, item.IsStatement allowed true inFunction)
    (bodyLaid : ∀ item ∈ body, StatementLaid functions blamed place.looping item) :
    StatementLaid functions blamed place (.whileLoop position condition bodyPosition body) := by
  intro goal start small ready
  rcases ready with ⟨here, known, inside⟩
  have self := here _ List.mem_cons_self
  have conditionSize := size_assembleExpression functions place conditionShape start
  have size := size_looping functions place bodyShapes (start + condition.expressionSize + 3)
  simp only [Node.statementSize] at small
  simp only [statementBodies] at known inside ⊢
  simp only [assembleStatement]
  generalize firstEq : start + condition.expressionSize + 3 = first at *
  generalize stopEq : first + Node.statementsSize true body + 3 = stop
  have tests := laid_expression bounded conditionShape (fun next => next = start ∨ next = stop)
    start (by omega) (self.part (by simp [Node.parts]))
  have chooses : Laid functions place.scopes place.scope (fun next => next = start ∨ next = stop)
      (start + condition.expressionSize) [.plain (.compare stop.toUInt16)] [] :=
    laid_jump .compare (by omega) (.inr rfl) .nil
  have loops := laid_looping bodyShapes bodyLaid (by omega)
    ⟨fun item member => self.part (by simp [Node.parts, member]), known, inside⟩ start stop
    (by omega) (by omega)
  have again : Laid functions place.scopes place.scope (fun next => next = start ∨ next = stop)
      (first + Node.statementsSize true body) [.plain (.jump start.toUInt16)] [] :=
    laid_jump .jump (by omega) (.inl rfl) .nil
  have whole := tests.append_at (by rw [conditionSize]) (chooses.append_at firstEq
    (loops.append_at (by simp only [← List.map_map, piecesSize_map_fill, size]) again))
  rw [List.append_nil] at whole
  apply whole.reach
  rintro target (rfl | rfl)
  · exact .inl whole.isBoundary_start
  · refine .inl (.inl ?_)
    simp only [← List.map_map, piecesSize_append, piecesSize_map_fill, piecesSize_cons,
      piecesSize_nil, conditionSize, size, Piece.size_plain, Instruction.opcode,
      Opcode.operandSize]
    omega

theorem laid_returns (bounded : place.scope.Bounded) {position : Position} {value : Node}
    (valueShape : value.IsExpression allowed) :
    StatementLaid functions blamed place (.returns position (some value)) := by
  intro goal start small ready
  have self := ready.here _ List.mem_cons_self
  simp only [Node.statementSize] at small
  simp only [assembleStatement, statementBodies, plainPieces_append]
  apply (laid_expression bounded valueShape goal start (by omega)
    (self.part (by simp [Node.parts]))).append
  exact laid_instructions (by simp) (by simp) _

theorem laid_function {position bodyPosition : Position} {name : String} {params : List String}
    {body : List Node} (bounded : (innerPlace functions place name).scope.Bounded)
    (bodyShapes : ∀ item ∈ body, item.IsStatement allowed false true)
    (ended : Node.EndsWithReturn body)
    (bodyLaid : ∀ item ∈ body,
      StatementLaid functions blamed (innerPlace functions place name) item) :
    StatementLaid functions blamed place (.function position name params bodyPosition body) := by
  intro goal start small ready
  rcases ready with ⟨here, known, inside⟩
  simp only [Node.statementSize] at small
  simp only [statementBodies, List.forall_mem_cons] at known inside
  rcases inside with ⟨bodyReady, inside⟩
  have plain : ∀ piece ∈ assembleStatements functions (innerPlace functions place name)
      (start + 3) body, ∃ instruction, piece = .plain instruction := by
    rcases eq_plainPieces_of_known (known_assembleStatements functions (fun item member =>
      known_assembleStatement functions (innerPlace functions place name)
        (bodyShapes item member)) (start + 3)) with ⟨code, codeEq⟩
    rw [codeEq]
    simp [plainPieces]
  rcases ended with ⟨front, returnPosition, result, rfl⟩
  have returnShape := bodyShapes (.returns returnPosition result) (by simp)
  cases returnShape with
  | value shape => cases shape with | name named => cases named
  | @returns _ _ value valueShape =>
      have frontShapes : ∀ item ∈ front, item.IsStatement allowed false true :=
        fun item member => bodyShapes item (List.mem_append_left _ member)
      have frontSize := size_assembleStatements functions (innerPlace functions place name)
        (fun item member => size_assembleStatement functions (innerPlace functions place name)
          (frontShapes item member)) (start + 3)
      rw [innerPlace_drops] at frontSize
      have valueSize := size_assembleExpression functions (innerPlace functions place name)
        valueShape (start + 3 + Node.statementsSize true front)
      have bodySize : Node.statementsSize true (front ++ [.returns returnPosition (some value)]) =
          Node.statementsSize true front + (value.expressionSize + 1) := by
        simp [Node.statementsSize_append, Node.statementsSize, Node.statementSize]
      have code : assembleStatements functions (innerPlace functions place name) (start + 3)
          (front ++ [.returns returnPosition (some value)]) =
            assembleStatements functions (innerPlace functions place name) (start + 3) front ++
              plainPieces (assembleExpression functions (innerPlace functions place name)
                (start + 3 + Node.statementsSize true front) value) ++ [.plain .return_] := by
        simp [assembleStatements_append, assembleStatements, assembleStatement, innerPlace_drops]
      have noBodies : statementsBodies true (start + 3)
          (front ++ [.returns returnPosition (some value)]) =
            statementsBodies true (start + 3) front ++ [] := by
        simp [statementsBodies_append, statementsBodies, statementBodies]
      rw [noBodies] at known inside
      rw [code] at plain
      simp only [assembleStatement, statementBodies, code, noBodies]
      rw [bodySize] at small
      have frontLaid : Laid functions place.scopes (innerScope functions place.scopes name)
          (fun _ => False) (start + 3) _ _ :=
        laid_statements frontShapes
          (fun item member => bodyLaid item (List.mem_append_left _ member))
          (by rw [innerPlace_drops]; omega)
          ⟨fun item member => bodyReady item (List.mem_append_left _ member),
            by rw [innerPlace_drops]; simpa using known.2,
            fun body member => inside body (by rw [innerPlace_drops] at member; simpa using member)⟩
      have valueReady : Ready functions blamed (innerPlace functions place name) value :=
        (bodyReady _ (List.mem_append_right _ List.mem_cons_self)).part (by simp [Node.parts])
      have valueLaid : Laid functions place.scopes (innerScope functions place.scopes name)
          (fun _ => False) _ _ [] := laid_expression bounded valueShape _
        (start + 3 + Node.statementsSize true front) (by omega) valueReady
      rw [innerPlace_drops] at frontLaid
      have inner := frontLaid.append_at (by rw [frontSize]) valueLaid
      refine Laid.function ⟨_, start + 3, _⟩ inner
        (fun piece member => plain piece (List.mem_append_left _ member)) rfl ?_ ?_
      · simp only [bodySize, piecesSize_append, frontSize, valueSize]
        omega
      · simp only [bodySize]
        omega

/-- The code of every statement is in order. -/
theorem laid_statement {inLoop inFunction : Bool} {node : Node}
    (shape : node.IsStatement allowed inLoop inFunction) (place : Surroundings)
    (bounded : place.scope.Bounded) (allBounded : ∀ scope ∈ place.scopes, scope.Bounded) :
    StatementLaid functions blamed place node := by
  induction shape generalizing place with
  | value shape lasting => exact laid_valued shape.isValued (laid_expression bounded shape)
  | call named argShapes =>
      exact laid_valued rfl (laid_call false bounded named argShapes
        fun arg member => laid_expression bounded (argShapes arg member))
  | stepBefore steps operandPosition name =>
      exact laid_valued rfl (laid_stepBefore false bounded steps)
  | stepAfter steps operandPosition name => exact laid_valued rfl (laid_stepAfter false bounded)
  | assignment assigns targetPosition name valueShape => exact laid_assignment bounded valueShape
  | itemAssignment assigns targetPosition bodyShape keyShape valueShape =>
      exact laid_itemAssignment bounded bodyShape keyShape valueShape
  | branch conditionShape bodyShapes bodyLaid =>
      exact laid_branch bounded conditionShape bodyShapes
        fun item member => bodyLaid item member place bounded allBounded
  | branchElse conditionShape bodyShapes otherShapes bodyLaid otherLaid =>
      refine laid_branchOther bounded conditionShape bodyShapes
        (fun item member => bodyLaid item member place bounded allBounded) ?_
        (laid_block otherShapes
          fun item member => otherLaid item member place bounded allBounded)
      intro start
      rw [assembleStatement, Node.statementSize]
      exact size_assembleStatements functions place
        (fun item member => size_assembleStatement functions place (otherShapes item member)) start
  | branchChain conditionShape bodyShapes chained otherShape bodyLaid otherLaid =>
      exact laid_branchOther bounded conditionShape bodyShapes
        (fun item member => bodyLaid item member place bounded allBounded)
        (size_assembleStatement functions place otherShape) (otherLaid place bounded allBounded)
  | endlessLoop bodyShapes bodyLaid =>
      exact laid_endlessLoop bodyShapes
        fun item member => bodyLaid item member place.looping bounded allBounded
  | whileLoop conditionShape bodyShapes bodyLaid =>
      exact laid_whileLoop bounded conditionShape bodyShapes
        fun item member => bodyLaid item member place.looping bounded allBounded
  | breaks | continues =>
      intro goal start small ready
      apply Laid.single
      rintro instruction ⟨⟩
  | returns valueShape => exact laid_returns bounded valueShape
  | @function inLoop inFunction position bodyPosition name params body distinct bodyShapes ended
      bodyLaid =>
      have inner : (innerPlace functions place name).scope.Bounded := by
        simp only [innerPlace]
        cases found : (functions.find? name).bind fun ref => place.scopes[ref.storage.toNat]? with
        | none => exact Scope.bounded_empty
        | some scope =>
            rcases Option.bind_eq_some_iff.1 found with ⟨ref, _, listed⟩
            exact allBounded scope (Array.mem_of_getElem? listed)
      exact laid_function inner bodyShapes ended
        fun item member => bodyLaid item member _ inner allBounded

end Statements

end Lehce.Code
