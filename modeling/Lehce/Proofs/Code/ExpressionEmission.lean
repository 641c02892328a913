import Lehce.Proofs.Code.EmissionLogic

/-!
# Emission of expressions

Emission of an expression whose names the scope answers adds the assembled code of the
expression. It fails only at a call that does not fit, or when a list or a dictionary
is so long that the code is too large anyway.
-/

namespace Lehce.Code

variable {blamed : Fault → Prop}

attribute [local simp] emitExpression emitExpressions emitEntries emitStatement emitStatements

/-- The state is extended by instructions only. -/
def Adds (before : Emission) (instructions : List Instruction) (after : Emission) : Prop :=
  Extends before (plainPieces instructions) [] noExits [] after

namespace Adds

variable {before middle after : Emission} {front back : List Instruction}

theorem refl (state : Emission) : Adds state [] state := Extends.refl state

theorem instruction (state : Emission) (instruction : Instruction) :
    Adds state [instruction] (state.appended instruction) := Extends.instruction state instruction

theorem trans (earlier : Adds before front middle) (later : Adds middle back after) :
    Adds before (front ++ back) after := by
  have whole := Extends.trans earlier later
  simpa [Adds] using whole

theorem agrees {functions : Functions} (adds : Adds before front after)
    (agreed : before.functions.Agrees functions) : after.functions.Agrees functions := by
  have same : after.functions = before.functions := adds.functions
  rw [same]
  exact agreed

end Adds

/-- The faults of lists and dictionaries that are too long are blamed. -/
def Oversize (blamed : Fault → Prop) : Prop :=
  ∀ position, ∀ detail ∈ ["list too long", "dict too long"],
    blamed (.detailed .syntaxError position detail)

/-- The calls in a node fit. -/
def Fits (functions : Functions) (scope : Scope) (node : Node) : Prop :=
  ∀ occurrence ∈ node.occurrences false, callMisfit? functions scope.binds occurrence = none

/-- The scope answers what a node refers to, and whatever call in it does not fit is blamed. -/
structure Ready (functions : Functions) (blamed : Fault → Prop) (place : Surroundings)
    (node : Node) : Prop where
  answers : ∀ occurrence ∈ node.occurrences false,
    place.scope.Answers functions place.natives occurrence
  blames : ∀ occurrence ∈ node.occurrences false, ∀ kind,
    callMisfit? functions place.scope.binds occurrence = some kind →
      ∀ position detail, blamed (.detailed kind position detail)

theorem Ready.part {functions : Functions} {place : Surroundings} {node part : Node}
    (ready : Ready functions blamed place node) (member : part ∈ node.parts) :
    Ready functions blamed place part := by
  have below : ∀ occurrence ∈ part.occurrences false, occurrence ∈ node.occurrences false :=
    fun occurrence inside => Node.mem_occurrences_iff.2 (.inr ⟨part, member, inside⟩)
  exact ⟨fun occurrence inside => ready.answers occurrence (below occurrence inside),
    fun occurrence inside => ready.blames occurrence (below occurrence inside)⟩

theorem Ready.self {functions : Functions} {place : Surroundings} {node : Node}
    (ready : Ready functions blamed place node) :
    place.scope.Answers functions place.natives node :=
  ready.answers node (Node.mem_occurrences_self false node)

/-- The calls in a node fit when it is no misfit itself and those in its parts fit. -/
theorem Fits.node {functions : Functions} {scope : Scope} {node : Node}
    (own : callMisfit? functions scope.binds node = none)
    (parts : ∀ part ∈ node.parts, Fits functions scope part) : Fits functions scope node := by
  intro occurrence member
  rcases Node.mem_occurrences_iff.1 member with rfl | ⟨part, partMember, inside⟩
  · exact own
  · exact parts part partMember occurrence inside

theorem Fits.of_name {functions : Functions} {scope : Scope} {node : Node}
    (named : node.IsName) : Fits functions scope node := by
  cases named <;> exact .node rfl (by simp [Node.parts])

/-- Emission of an expression adds its code, or blames a call in it or its size. -/
def ExpressionEmits (functions : Functions) (blamed : Fault → Prop) (place : Surroundings)
    (node : Node) : Prop :=
  ∀ before : Emission, before.functions.Agrees functions →
    (maxOperand < before.draft.code.size + node.expressionSize → Oversize blamed) →
      Ready functions blamed place node →
        Emits blamed (emitExpression place node) before fun _ after =>
          Adds before (assembleExpression functions place before.draft.code.size node) after ∧
            Fits functions place.scope node

section Expressions

variable {allowed : Float → Prop} {functions : Functions} {place : Surroundings}
  {before : Emission}

theorem Adds.size_expression {node : Node} (shape : node.IsExpression allowed)
    {after : Emission}
    (adds : Adds before (assembleExpression functions place before.draft.code.size node) after) :
    after.draft.code.size = before.draft.code.size + node.expressionSize := by
  rw [Extends.size_eq adds, size_assembleExpression functions place shape]

theorem emits_expressions {nodes : List Node}
    (shapes : ∀ node ∈ nodes, node.IsExpression allowed)
    (emits : ∀ node ∈ nodes, ExpressionEmits functions blamed place node)
    (agrees : before.functions.Agrees functions)
    (large : maxOperand < before.draft.code.size + Node.expressionsSize nodes →
      Oversize blamed)
    (ready : ∀ node ∈ nodes, Ready functions blamed place node) :
    Emits blamed (emitExpressions place nodes) before fun _ after =>
      Adds before (assembleExpressions functions place before.draft.code.size nodes) after ∧
        ∀ node ∈ nodes, Fits functions place.scope node := by
  induction nodes generalizing before with
  | nil =>
      simp only [emitExpressions, assembleExpressions, Emits.pure_iff]
      exact ⟨.refl before, by simp⟩
  | cons node rest ih =>
      rcases List.forall_mem_cons.1 shapes with ⟨shape, restShapes⟩
      rcases List.forall_mem_cons.1 emits with ⟨nodeEmits, restEmits⟩
      rcases List.forall_mem_cons.1 ready with ⟨nodeReady, restReady⟩
      simp only [Node.expressionsSize] at large
      simp only [emitExpressions, assembleExpressions, Emits.bind_iff]
      refine (nodeEmits before agrees (fun more => large (by omega)) nodeReady).mono ?_
      rintro _ middle ⟨adds, fits⟩
      have size := adds.size_expression shape
      refine (ih restShapes restEmits (adds.agrees agrees) (fun more => large (by omega))
        restReady).mono ?_
      rintro _ after ⟨restAdds, restFits⟩
      rw [size] at restAdds
      exact ⟨adds.trans restAdds, List.forall_mem_cons.2 ⟨fits, restFits⟩⟩

theorem emits_entries {position : Position} {entries : List (String × Node)}
    (shapes : ∀ entry ∈ entries, entry.2.IsExpression allowed)
    (emits : ∀ entry ∈ entries, ExpressionEmits functions blamed place entry.2)
    (agrees : before.functions.Agrees functions)
    (large : maxOperand < before.draft.code.size + Node.entriesSize entries →
      Oversize blamed)
    (keys : ∀ entry ∈ entries, place.scope.HasSlot (.text entry.1))
    (ready : ∀ entry ∈ entries, Ready functions blamed place entry.2) :
    Emits blamed (emitEntries place position entries) before fun _ after =>
      Adds before (assembleEntries functions place before.draft.code.size entries) after ∧
        ∀ entry ∈ entries, Fits functions place.scope entry.2 := by
  induction entries generalizing before with
  | nil =>
      simp only [emitEntries, assembleEntries, Emits.pure_iff]
      exact ⟨.refl before, by simp⟩
  | cons entry rest ih =>
      rcases List.forall_mem_cons.1 shapes with ⟨shape, restShapes⟩
      rcases List.forall_mem_cons.1 emits with ⟨valueEmits, restEmits⟩
      rcases List.forall_mem_cons.1 keys with ⟨key, restKeys⟩
      rcases List.forall_mem_cons.1 ready with ⟨valueReady, restReady⟩
      simp only [Node.entriesSize] at large
      simp only [emitEntries, assembleEntries, Emits.bind_iff]
      rw [emits_loadConstant rfl key]
      have load := Adds.instruction before (.load (literalAddress place.scope (.text entry.1)))
      have loadSize := Extends.size_eq load
      simp only [plainPieces_cons, plainPieces_nil, piecesSize_cons, piecesSize_nil,
        Piece.size_plain, Instruction.opcode, Opcode.operandSize] at loadSize
      refine (valueEmits _ (load.agrees agrees) (fun more => large (by omega)) valueReady).mono ?_
      rintro _ middle ⟨adds, fits⟩
      have size := adds.size_expression shape
      refine (ih restShapes restEmits (adds.agrees (load.agrees agrees))
        (fun more => large (by omega)) restKeys restReady).mono ?_
      rintro _ after ⟨restAdds, restFits⟩
      rw [size, loadSize] at restAdds
      rw [loadSize] at adds
      exact ⟨load.trans (adds.trans restAdds), List.forall_mem_cons.2 ⟨fits, restFits⟩⟩

theorem expressionSize_pos {node : Node} (shape : node.IsExpression allowed) :
    1 ≤ node.expressionSize := by
  cases shape with
  | name named => cases named <;> simp [Node.expressionSize]
  | comparison | logical =>
      simp only [Node.expressionSize]
      grind
  | stepBefore | stepAfter =>
      simp only [Node.expressionSize]
      split <;> omega
  | not | negate => simp [Node.expressionSize, Op.isStep]
  | _ => simp [Node.expressionSize]

theorem length_le_expressionsSize {nodes : List Node}
    (shapes : ∀ node ∈ nodes, node.IsExpression allowed) :
    nodes.length ≤ Node.expressionsSize nodes := by
  induction nodes with
  | nil => simp
  | cons node rest ih =>
      rcases List.forall_mem_cons.1 shapes with ⟨shape, restShapes⟩
      have first := expressionSize_pos shape
      have others := ih restShapes
      simp only [List.length_cons, Node.expressionsSize]
      omega

theorem length_le_entriesSize (entries : List (String × Node)) :
    entries.length ≤ Node.entriesSize entries := by
  induction entries with
  | nil => simp
  | cons entry rest ih =>
      simp only [List.length_cons, Node.entriesSize]
      omega

theorem emits_call {position : Position} {callee : Node} {args : List Node} (used : Bool)
    (named : callee.IsName) (shapes : ∀ arg ∈ args, arg.IsExpression allowed)
    (emits : ∀ arg ∈ args, ExpressionEmits functions blamed place arg) :
    ExpressionEmits functions blamed place (.call position callee args used) := by
  intro before agrees large ready
  have calleeReady : Ready functions blamed place callee :=
    ready.part (by simp [Node.parts])
  have argsReady : ∀ arg ∈ args, Ready functions blamed place arg := fun arg member =>
    ready.part (by simp [Node.parts, member])
  have blames := ready.blames _ (Node.mem_occurrences_self false _)
  simp only [callMisfit?] at blames
  simp only [Node.expressionSize] at large
  simp only [emitExpression, Emits.bind_iff]
  refine (emits_calleeSlot named agrees calleeReady.self
    (fun misfit => blames _ (by simp [misfit]) _)).mono ?_
  rintro slot _ ⟨rfl, address, arity⟩
  by_cases many : 0xff < args.length
  · simp only [many, if_true, Emits.bind_iff, Emits.failAt_iff]
    exact blames _ (by simp [arity, many]) _ _
  · simp only [many, if_false, Emits.bind_iff, Emits.emit_iff]
    refine (emits_expressions shapes emits agrees (fun more => large (by omega)) argsReady).mono ?_
    rintro _ after ⟨adds, fits⟩
    rw [address]
    refine ⟨adds.trans (.instruction _ _), ?_⟩
    exact .node (by simp [callMisfit?, arity, many])
      (List.forall_mem_cons.2 ⟨.of_name named, fits⟩)

theorem emits_stepBefore {position operandPosition : Position} {op : Op} {name : String}
    (used : Bool) (steps : op.isStep) :
    ExpressionEmits functions blamed place
      (.prefixed position op (.symbol operandPosition name) used) := by
  intro before agrees large ready
  have declared := ready.self.assigned name (by cases op <;> first | rfl | cases steps)
  have load (slot : UInt16) := Adds.instruction before (.load slot)
  have whole (slot : UInt16) (store : Instruction) :=
    ((load slot).trans (.instruction _ (.unary (stepOp op)))).trans (.instruction _ store)
  have fits : Fits functions place.scope
      (.prefixed position op (.symbol operandPosition name) used) := by
    exact .node rfl (by
      simpa [Node.parts] using Fits.of_name (.symbol operandPosition name))
  cases op <;> cases steps <;>
  · simp only [emitExpression, steppedSlot, Emits.bind_iff]
    refine (emits_assignedSlot declared).mono ?_
    rintro slot _ ⟨rfl, address⟩
    simp only [Emits.emit_iff, assembleExpression, steppedAddress, address]
    exact ⟨whole _ _, fits⟩

theorem emits_stepAfter {position operandPosition : Position} {op : Op} {name : String}
    (used : Bool) :
    ExpressionEmits functions blamed place
      (.suffixed position op (.symbol operandPosition name) used) := by
  intro before agrees large ready
  have declared := ready.self.assigned name rfl
  have fits : Fits functions place.scope
      (.suffixed position op (.symbol operandPosition name) used) := by
    exact .node rfl (by
      simpa [Node.parts] using Fits.of_name (.symbol operandPosition name))
  simp only [emitExpression, steppedSlot, Emits.bind_iff]
  refine (emits_assignedSlot declared).mono ?_
  rintro slot _ ⟨rfl, address⟩
  cases used with
  | true =>
      simp only [Emits.bind_iff, Emits.emit_iff, assembleExpression, steppedAddress, address,
        if_true]
      exact ⟨(((Adds.instruction _ _).trans (.instruction _ _)).trans (.instruction _ _)).trans
        (.instruction _ _), fits⟩
  | false =>
      simp only [Emits.bind_iff, Emits.emit_iff, assembleExpression, steppedAddress, address,
        Bool.false_eq_true, if_false]
      exact ⟨((Adds.instruction _ _).trans (.instruction _ _)).trans (.instruction _ _), fits⟩

/-- What stands behind a test of a new location: the location is set behind the second operand. -/
theorem emits_guarded {middle tested : Emission} {test : List Instruction} {right : Node}
    (rightShape : right.IsExpression allowed)
    (rightEmits : ExpressionEmits functions blamed place right)
    (agrees : middle.functions.Agrees functions) (testAdds : Adds middle.opened test tested)
    (large : maxOperand < middle.draft.code.size + (piecesSize (plainPieces test) + 4) +
      right.expressionSize → Oversize blamed)
    (ready : Ready functions blamed place right) :
    Emits blamed (emitExpression place right)
      ((tested.jumped .compare middle.draft.locations.size).appended .pop)
      fun _ after => Adds middle
        (test ++ .compare (middle.draft.code.size + (piecesSize (plainPieces test) + 4) +
          right.expressionSize).toUInt16 :: .pop :: assembleExpression functions place
            (middle.draft.code.size + (piecesSize (plainPieces test) + 4)) right)
        (after.marked middle.draft.locations.size after.draft.code.size) ∧
        Fits functions place.scope right := by
  have waiting := testAdds.awaits (Extends.awaits_opened middle)
  have jumped := Extends.jumping .compare ((Extends.opening middle).trans testAdds) waiting
    (Nat.le_refl _) (List.mem_append_left _ List.mem_cons_self)
  have popped := jumped.trans (Extends.instruction _ .pop)
  have startSize := popped.size_eq
  simp only [List.nil_append, piecesSize_append, piecesSize_cons, piecesSize_nil, Piece.size,
    Piece.draft, Instruction.size, Instruction.opcode, Opcode.size, Opcode.operandSize]
    at startSize
  have sameFunctions : ((tested.jumped .compare middle.draft.locations.size).appended
      .pop).functions.Agrees functions := by
    rw [popped.functions]
    exact agrees
  refine (rightEmits _ sameFunctions (fun more => large (by omega)) ready).mono ?_
  rintro _ after ⟨adds, fits⟩
  refine ⟨?_, fits⟩
  have size := adds.size_expression rightShape
  have later := (Extends.instruction _ .pop).trans adds
  have target : after.draft.code.size = middle.draft.code.size +
      (piecesSize (plainPieces test) + 4) + right.expressionSize := by omega
  have whole := Extends.forward .compare testAdds later after.draft.code.size (by
      rw [target, piecesSize_append, size_assembleExpression functions place rightShape]
      simp [Instruction.opcode, Opcode.operandSize]
      omega)
  have start : ((tested.jumped .compare middle.draft.locations.size).appended
      .pop).draft.code.size =
      middle.draft.code.size + (piecesSize (plainPieces test) + 4) := by omega
  rw [target, start] at whole
  simpa [Adds, target] using whole

/-- `ve` and `veya` add both operands with a jump over the second one. -/
theorem emits_logical {position : Position} {left right : Node} {op : Op} (decides : op.isLogical)
    (leftShape : left.IsExpression allowed) (rightShape : right.IsExpression allowed)
    (leftEmits : ExpressionEmits functions blamed place left)
    (rightEmits : ExpressionEmits functions blamed place right) :
    ExpressionEmits functions blamed place (.control position left op right) := by
  intro before agrees large ready
  have leftReady : Ready functions blamed place left :=
    ready.part (by simp [Node.parts])
  have rightReady : Ready functions blamed place right :=
    ready.part (by simp [Node.parts])
  have fits (leftFits : Fits functions place.scope left)
      (rightFits : Fits functions place.scope right) :
      Fits functions place.scope (.control position left op right) := by
    exact .node rfl (by simpa [Node.parts] using ⟨leftFits, rightFits⟩)
  simp only [Node.expressionSize, decides, if_true] at large
  cases op <;> cases decides
  · simp only [emitExpression, assembleExpression, comparisonOp?, ne_eq, not_true_eq_false,
      false_and, reduceCtorEq, if_false, Emits.bind_iff, Emits.newLocation_iff, Emits.emit_iff,
      Emits.emitJump_iff, Emits.mark_iff] at large ⊢
    refine (leftEmits before agrees (fun more => large (by omega)) leftReady).mono ?_
    rintro _ middle ⟨leftAdds, leftFits⟩
    have leftSize := leftAdds.size_expression leftShape
    refine (emits_guarded rightShape rightEmits (leftAdds.agrees agrees)
      (Adds.instruction middle.opened .dup) (fun more => large ?_) rightReady).mono ?_
    · simp [Instruction.opcode, Opcode.operandSize] at more
      omega
    · rintro _ after ⟨rightAdds, rightFits⟩
      rw [leftSize] at rightAdds
      exact ⟨leftAdds.trans rightAdds, fits leftFits rightFits⟩
  · simp only [emitExpression, assembleExpression, comparisonOp?, ne_eq, not_true_eq_false,
      and_false, if_true, if_false, Emits.bind_iff, Emits.newLocation_iff, Emits.emit_iff,
      Emits.emitJump_iff, Emits.mark_iff] at large ⊢
    refine (leftEmits before agrees (fun more => large (by omega)) leftReady).mono ?_
    rintro _ middle ⟨leftAdds, leftFits⟩
    have leftSize := leftAdds.size_expression leftShape
    have tested := (Adds.instruction middle.opened .dup).trans (.instruction _ (.unary .not))
    refine (emits_guarded rightShape rightEmits (leftAdds.agrees agrees) tested
      (fun more => large ?_) rightReady).mono ?_
    · simp [Instruction.opcode, Opcode.operandSize] at more
      omega
    · rintro _ after ⟨rightAdds, rightFits⟩
      rw [leftSize] at rightAdds
      exact ⟨leftAdds.trans rightAdds, fits leftFits rightFits⟩

/-- Two operands and then an instruction. -/
theorem emits_both {left right : Node} (leftShape : left.IsExpression allowed)
    (leftEmits : ExpressionEmits functions blamed place left)
    (rightEmits : ExpressionEmits functions blamed place right) (instruction : Instruction)
    (agrees : before.functions.Agrees functions)
    (large : maxOperand < before.draft.code.size +
      (left.expressionSize + right.expressionSize + 1) → Oversize blamed)
    (leftReady : Ready functions blamed place left)
    (rightReady : Ready functions blamed place right) :
    Emits blamed (do
        emitExpression place left
        emitExpression place right
        emit instruction) before fun _ after =>
      Adds before (assembleExpression functions place before.draft.code.size left ++
        (assembleExpression functions place (before.draft.code.size + left.expressionSize) right ++
          [instruction])) after ∧
        Fits functions place.scope left ∧ Fits functions place.scope right := by
  simp only [Emits.bind_iff, Emits.emit_iff]
  refine (leftEmits before agrees (fun more => large (by omega)) leftReady).mono ?_
  rintro _ middle ⟨leftAdds, leftFits⟩
  have leftSize := leftAdds.size_expression leftShape
  refine (rightEmits middle (leftAdds.agrees agrees) (fun more => large (by omega))
    rightReady).mono ?_
  rintro _ after ⟨rightAdds, rightFits⟩
  rw [leftSize] at rightAdds
  exact ⟨leftAdds.trans (rightAdds.trans (.instruction _ _)), leftFits, rightFits⟩

/-- Emission of an expression adds the assembled code. -/
theorem emits_expression {node : Node} (shape : node.IsExpression allowed) :
    ExpressionEmits functions blamed place node := by
  induction shape with
  | @literal position value known =>
      intro before agrees large ready
      rcases ready.self.names with ⟨key, keyEq, hasSlot⟩
      rw [emitExpression, emits_loadConstant keyEq hasSlot]
      refine ⟨.instruction _ _, ?_⟩
      exact .node rfl (by simp [Node.parts])
  | nothing position =>
      intro before agrees large ready
      have hasSlot : place.scope.HasSlot .empty := ready.self.names
      rw [emitExpression, emits_loadConstant rfl hasSlot]
      refine ⟨.instruction _ _, ?_⟩
      exact .node rfl (by simp [Node.parts])
  | name named =>
      intro before agrees large ready
      cases named with
      | symbol position name =>
          simp only [emitExpression, Emits.bind_iff, Emits.emit_iff]
          refine (emits_symbolSlot agrees ready.self).mono ?_
          rintro slot _ ⟨rfl, address⟩
          rw [address]
          exact ⟨.instruction _ _, Fits.of_name (.symbol position name)⟩
      | path position parts =>
          simp only [emitExpression, Emits.bind_iff, Emits.emit_iff]
          refine (emits_pathSlot ready.self).mono ?_
          rintro slot _ ⟨rfl, address⟩
          rw [address]
          exact ⟨.instruction _ _, Fits.of_name (.path position parts)⟩
  | @binary position left right op arithmetic leftShape rightShape leftEmits rightEmits =>
      intro before agrees large ready
      rcases arithmeticOp?_isSome arithmetic with ⟨operation, found⟩
      simp only [emitExpression, assembleExpression, found, Option.getD_some]
      refine (emits_both leftShape leftEmits rightEmits _ agrees large
        (ready.part (by simp [Node.parts]))
        (ready.part (by simp [Node.parts]))).mono ?_
      rintro _ after ⟨adds, leftFits, rightFits⟩
      refine ⟨adds, ?_⟩
      exact .node rfl (by simpa [Node.parts] using ⟨leftFits, rightFits⟩)
  | @comparison position left right op compares leftShape rightShape leftEmits rightEmits =>
      intro before agrees large ready
      rcases comparisonOp?_isSome compares with ⟨operation, found⟩
      have notLogical : op.isLogical = false := by
        cases op <;> first | rfl | cases compares
      simp only [Node.expressionSize, notLogical, Bool.false_eq_true, if_false] at large
      simp only [emitExpression, assembleExpression, found]
      refine (emits_both leftShape leftEmits rightEmits _ agrees large
        (ready.part (by simp [Node.parts]))
        (ready.part (by simp [Node.parts]))).mono ?_
      rintro _ after ⟨adds, leftFits, rightFits⟩
      refine ⟨adds, ?_⟩
      exact .node rfl (by simpa [Node.parts] using ⟨leftFits, rightFits⟩)
  | logical decides leftShape rightShape leftEmits rightEmits =>
      exact emits_logical decides leftShape rightShape leftEmits rightEmits
  | call named argShapes argEmits => exact emits_call true named argShapes argEmits
  | @list position items itemShapes itemEmits =>
      intro before agrees large ready
      have length := length_le_expressionsSize itemShapes
      simp only [Node.expressionSize] at large
      simp only [emitExpression, assembleExpression, Emits.bind_iff]
      refine (emits_expressions itemShapes itemEmits agrees (fun more => large (by omega))
        (fun item member => ready.part
          (by simp [Node.parts, member]))).mono ?_
      rintro _ after ⟨adds, fits⟩
      by_cases tooLong : maxOperand < items.length
      · simp only [tooLong, if_true, Emits.bind_iff, Emits.failAt_iff]
        exact large (by omega) _ _ (by simp)
      · simp only [tooLong, if_false, Emits.emit_iff]
        refine ⟨adds.trans (.instruction _ _), ?_⟩
        exact .node rfl fits
  | @dict position entries distinct valueShapes valueEmits =>
      intro before agrees large ready
      have length := length_le_entriesSize entries
      have keys : ∀ entry ∈ entries, place.scope.HasSlot (.text entry.1) := ready.self.names
      simp only [Node.expressionSize] at large
      simp only [emitExpression, assembleExpression, Emits.bind_iff]
      refine (emits_entries valueShapes valueEmits agrees (fun more => large (by omega)) keys
        (fun entry member => ready.part
          (by simp only [Node.parts]; exact List.mem_map_of_mem member))).mono ?_
      rintro _ after ⟨adds, fits⟩
      by_cases tooLong : maxOperand < entries.length
      · simp only [tooLong, if_true, Emits.bind_iff, Emits.failAt_iff]
        exact large (by omega) _ _ (by simp)
      · simp only [tooLong, if_false, Emits.emit_iff]
        refine ⟨adds.trans (.instruction _ _), ?_⟩
        exact .node rfl (List.forall_mem_map.2 fits)
  | not operandShape operandEmits =>
      intro before agrees large ready
      simp only [Node.expressionSize, Op.isStep, Bool.false_eq_true, if_false] at large
      simp only [emitExpression, assembleExpression, Emits.bind_iff, Emits.emit_iff]
      refine (operandEmits before agrees (fun more => large (by omega))
        (ready.part (by simp [Node.parts]))).mono ?_
      rintro _ after ⟨adds, fits⟩
      refine ⟨adds.trans (.instruction _ _), ?_⟩
      exact .node rfl (by simpa [Node.parts] using fits)
  | negate unfolded operandShape operandEmits =>
      intro before agrees large ready
      simp only [Node.expressionSize, Op.isStep, Bool.false_eq_true, if_false] at large
      simp only [emitExpression, assembleExpression, Emits.bind_iff, Emits.emit_iff]
      refine (operandEmits before agrees (fun more => large (by omega))
        (ready.part (by simp [Node.parts]))).mono ?_
      rintro _ after ⟨adds, fits⟩
      refine ⟨adds.trans (.instruction _ _), ?_⟩
      exact .node rfl (by simpa [Node.parts] using fits)
  | stepBefore steps operandPosition name => exact emits_stepBefore true steps
  | stepAfter steps operandPosition name => exact emits_stepAfter true
  | @index position body key bodyShape keyShape bodyEmits keyEmits =>
      intro before agrees large ready
      simp only [emitExpression, assembleExpression]
      refine (emits_both bodyShape bodyEmits keyEmits _ agrees large
        (ready.part (by simp [Node.parts]))
        (ready.part (by simp [Node.parts]))).mono ?_
      rintro _ after ⟨adds, bodyFits, keyFits⟩
      refine ⟨adds, ?_⟩
      exact .node rfl (by simpa [Node.parts] using ⟨bodyFits, keyFits⟩)

end Expressions

end Lehce.Code
