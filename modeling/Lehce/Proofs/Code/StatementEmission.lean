import Lehce.Proofs.Code.ExpressionEmission

/-!
# Emission of statements

Emission of a statement leaves its assembled code: locations that were added on the way
are settled, except those of jumps out of the loop around the statement, and the entries
of functions are recorded. The faults are those of expressions.
-/

namespace Lehce.Code

variable {blamed : Fault → Prop}

/-- Statements are ready, and so are the bodies of the functions that they define. -/
structure BodyReady (functions : Functions) (blamed : Fault → Prop) (place : Surroundings)
    (nodes : List Node) (bodies : List Body) : Prop where
  here : ∀ node ∈ nodes, Ready functions blamed place node
  known : ∀ body ∈ bodies, ∃ ref, functions.find? body.definition.name = some ref
  inside : ∀ body ∈ bodies, ∀ item ∈ body.definition.body,
    Ready functions blamed (innerPlace functions place body.definition.name) item

/-- The calls in statements fit, and so do those in the bodies that they define. -/
structure BodyFits (functions : Functions) (place : Surroundings) (nodes : List Node)
    (bodies : List Body) : Prop where
  here : ∀ node ∈ nodes, Fits functions place.scope node
  inside : ∀ body ∈ bodies, ∀ item ∈ body.definition.body,
    Fits functions (innerPlace functions place body.definition.name).scope item

/-- Emission of a statement leaves its assembled code, or blames a call in it or its size. -/
def StatementEmits (functions : Functions) (blamed : Fault → Prop) (place : Surroundings)
    (node : Node) : Prop :=
  ∀ before : Emission, before.functions.Agrees functions →
    (maxOperand < before.draft.code.size + node.statementSize place.drops →
      Oversize blamed) →
    BodyReady functions blamed place [node]
      (statementBodies place.drops before.draft.code.size node) →
    Emits blamed (emitStatement place node) before fun _ after =>
      (∃ numbers, Extends before
        (assembleStatement functions place before.draft.code.size node)
        (statementBodies place.drops before.draft.code.size node) numbers [] after) ∧
      BodyFits functions place [node]
        (statementBodies place.drops before.draft.code.size node)

section Statements

variable {allowed : Float → Prop} {functions : Functions} {place : Surroundings}
  {before : Emission}

theorem Extends.agrees {pieces : List Piece} {bodies : List Body} {numbers : Exit → List Nat}
    {pending : List Nat} {after : Emission}
    (extension : Extends before pieces bodies numbers pending after)
    (agrees : before.functions.Agrees functions) : after.functions.Agrees functions := by
  intro name
  rw [extension.functions]
  exact (Functions.agrees_setEntries before.functions bodies name).trans (agrees name)

theorem emits_statements {nodes : List Node} {inLoop inFunction : Bool}
    (shapes : ∀ node ∈ nodes, node.IsStatement allowed inLoop inFunction)
    (emits : ∀ node ∈ nodes, StatementEmits functions blamed place node)
    (agrees : before.functions.Agrees functions)
    (large : maxOperand < before.draft.code.size + Node.statementsSize place.drops nodes →
      Oversize blamed)
    (ready : BodyReady functions blamed place nodes
      (statementsBodies place.drops before.draft.code.size nodes)) :
    Emits blamed (emitStatements place nodes) before fun _ after =>
      (∃ numbers, Extends before
        (assembleStatements functions place before.draft.code.size nodes)
        (statementsBodies place.drops before.draft.code.size nodes) numbers [] after) ∧
      BodyFits functions place nodes
        (statementsBodies place.drops before.draft.code.size nodes) := by
  induction nodes generalizing before with
  | nil =>
      simp only [emitStatements, assembleStatements, statementsBodies, Emits.pure_iff]
      exact ⟨⟨noExits, .refl before⟩, by simp, by simp⟩
  | cons node rest ih =>
      rcases List.forall_mem_cons.1 shapes with ⟨shape, restShapes⟩
      rcases List.forall_mem_cons.1 emits with ⟨nodeEmits, restEmits⟩
      rcases ready with ⟨here, known, inside⟩
      simp only [statementsBodies, List.forall_mem_append, List.forall_mem_cons] at here known inside
      simp only [Node.statementsSize] at large
      simp only [emitStatements, assembleStatements, statementsBodies, Emits.bind_iff]
      refine (nodeEmits before agrees (fun more => large (by omega))
        ⟨by simpa using here.1, known.1, inside.1⟩).mono ?_
      rintro _ middle ⟨⟨numbers, extension⟩, fits⟩
      have size := extension.size_eq
      rw [size_assembleStatement functions place shape] at size
      rw [← size] at known inside ⊢
      refine (ih restShapes restEmits (extension.agrees agrees) (fun more => large (by omega))
        ⟨here.2, known.2, inside.2⟩).mono ?_
      rintro _ after ⟨⟨others, restExtension⟩, restFits⟩
      refine ⟨⟨_, extension.trans restExtension⟩, ?_, ?_⟩
      · exact List.forall_mem_cons.2 ⟨fits.here node List.mem_cons_self, restFits.here⟩
      · exact List.forall_mem_append.2 ⟨fits.inside, restFits.inside⟩

theorem emitStatement_of_valued (place : Surroundings) {node : Node} (valued : node.isValued) :
    emitStatement place node = (do
      emitExpression place node
      if leavesValue node && place.drops then emit .pop) := by
  cases node <;> simp_all [Node.isValued, emitStatement, Surroundings.drops]

theorem emits_valued {node : Node} (valued : node.isValued)
    (emits : ExpressionEmits functions blamed place node) :
    StatementEmits functions blamed place node := by
  intro before agrees large ready
  rw [statementSize_of_valued place.drops valued] at large
  rw [statementBodies_of_valued place.drops _ valued] at ready ⊢
  rw [emitStatement_of_valued place valued,
    assembleStatement_of_valued functions place _ valued, Emits.bind_iff]
  refine (emits before agrees (fun more => large (by omega))
    (ready.here node List.mem_cons_self)).mono ?_
  rintro _ after ⟨adds, fits⟩
  have fitsAll : BodyFits functions place [node] [] := ⟨by simpa using fits, by simp⟩
  by_cases popped : leavesValue node && place.drops
  · simp only [popped, if_true, Emits.emit_iff]
    exact ⟨⟨noExits, adds.trans (.instruction _ _)⟩, fitsAll⟩
  · simp only [popped, Bool.false_eq_true, if_false, List.append_nil]
    exact ⟨⟨noExits, adds⟩, fitsAll⟩

theorem arithmeticOp?_assignment {op : Op} (assigns : op.isAssignment) (more : op ≠ .assign) :
    ∃ operation, arithmeticOp? op.arithmetic = some operation := by
  cases op <;> cases assigns <;> first | exact absurd rfl more | exact ⟨_, rfl⟩

theorem emits_assignment {position targetPosition : Position} {op : Op} {name : String}
    {value : Node} (assigns : op.isAssignment) (valueShape : value.IsExpression allowed) :
    StatementEmits functions blamed place
      (.assignment position (.symbol targetPosition name) op value) := by
  intro before agrees large ready
  have here := ready.here _ List.mem_cons_self
  have declared := here.self.assigned name rfl
  have valueReady : Ready functions blamed place value :=
    here.part (by simp [Node.parts])
  have fits (valueFits : Fits functions place.scope value) : BodyFits functions place
      [.assignment position (.symbol targetPosition name) op value] [] := by
    refine ⟨?_, by simp⟩
    simp only [List.mem_singleton, forall_eq]
    exact .node rfl (by
      simpa [Node.parts] using ⟨Fits.of_name (.symbol targetPosition name), valueFits⟩)
  simp only [emitStatement, assembleStatement, statementBodies, steppedAddress, Emits.bind_iff]
  refine (emits_assignedSlot declared).mono ?_
  rintro slot start ⟨rfl, address⟩
  by_cases plain : op = .assign
  · simp only [Node.statementSize, plain, if_true, ne_eq, not_true_eq_false, if_false,
      Emits.bind_iff, Emits.emit_iff, address] at large ⊢
    refine (emits_expression valueShape start agrees (fun more => large (by omega))
      valueReady).mono ?_
    rintro _ after ⟨adds, valueFits⟩
    exact ⟨⟨noExits, adds.trans (.instruction _ _)⟩, plain ▸ fits valueFits⟩
  · rcases arithmeticOp?_assignment assigns plain with ⟨operation, found⟩
    simp only [Node.statementSize, plain, if_false, ne_eq, not_false_iff, if_true, emitArithmetic,
      assignedOp, found, Option.getD_some, Emits.bind_iff, Emits.emit_iff, address] at large ⊢
    have load := Adds.instruction start (.load (variableAddress place.scope name))
    have loadSize : (start.appended (.load (variableAddress place.scope name))).draft.code.size =
        start.draft.code.size + 3 := Extends.size_eq load
    refine (emits_expression valueShape _ (load.agrees agrees) (fun more => large (by omega))
      valueReady).mono ?_
    rintro _ after ⟨adds, valueFits⟩
    rw [loadSize] at adds
    exact ⟨⟨noExits, (load.trans (adds.trans (.instruction _ _))).trans (.instruction _ _)⟩,
      fits valueFits⟩

theorem emits_itemAssignment {position targetPosition : Position} {op : Op}
    {body key value : Node} (assigns : op.isAssignment) (bodyShape : body.IsExpression allowed)
    (keyShape : key.IsExpression allowed) (valueShape : value.IsExpression allowed) :
    StatementEmits functions blamed place
      (.assignment position (.index targetPosition body key) op value) := by
  intro before agrees large ready
  have here := ready.here _ List.mem_cons_self
  have targetReady : Ready functions blamed place (.index targetPosition body key) :=
    here.part (by simp [Node.parts])
  have bodyReady : Ready functions blamed place body := targetReady.part (by simp [Node.parts])
  have keyReady : Ready functions blamed place key := targetReady.part (by simp [Node.parts])
  have valueReady : Ready functions blamed place value :=
    here.part (by simp [Node.parts])
  have fits (bodyFits : Fits functions place.scope body) (keyFits : Fits functions place.scope key)
      (valueFits : Fits functions place.scope value) : BodyFits functions place
      [.assignment position (.index targetPosition body key) op value] [] := by
    refine ⟨?_, by simp⟩
    simp only [List.mem_singleton, forall_eq]
    have targetFits : Fits functions place.scope (.index targetPosition body key) :=
      .node rfl (by simpa [Node.parts] using ⟨bodyFits, keyFits⟩)
    exact .node rfl (by simpa [Node.parts] using ⟨targetFits, valueFits⟩)
  simp only [Node.statementSize] at large
  simp only [emitStatement, assembleStatement, statementBodies, Emits.bind_iff]
  refine (emits_expression bodyShape before agrees (fun more => large (by omega))
    bodyReady).mono ?_
  rintro _ first ⟨bodyAdds, bodyFits⟩
  have bodySize := bodyAdds.size_expression bodyShape
  refine (emits_expression keyShape first (bodyAdds.agrees agrees) (fun more => large (by omega))
    keyReady).mono ?_
  rintro _ second ⟨keyAdds, keyFits⟩
  have keySize := keyAdds.size_expression keyShape
  have secondAgrees := keyAdds.agrees (bodyAdds.agrees agrees)
  rw [bodySize] at keyAdds keySize
  have container := bodyAdds.trans keyAdds
  by_cases plain : op = .assign
  · simp only [plain, if_true, ne_eq, not_true_eq_false, if_false, Emits.bind_iff,
      Emits.emit_iff] at large ⊢
    refine (emits_expression valueShape second secondAgrees (fun more => large (by omega))
      valueReady).mono ?_
    rintro _ after ⟨adds, valueFits⟩
    rw [keySize] at adds
    refine ⟨⟨noExits, ?_⟩, plain ▸ fits bodyFits keyFits valueFits⟩
    have whole := container.trans (adds.trans (.instruction _ .setItem))
    rwa [List.append_assoc] at whole
  · rcases arithmeticOp?_assignment assigns plain with ⟨operation, found⟩
    simp only [plain, if_false, ne_eq, not_false_iff, if_true, emitArithmetic, assignedOp, found,
      Option.getD_some, Emits.bind_iff, Emits.emit_iff] at large ⊢
    have item := (Adds.instruction second .dup2).trans (.instruction _ .getItem)
    have itemSize : ((second.appended .dup2).appended .getItem).draft.code.size =
        second.draft.code.size + 2 := Extends.size_eq item
    refine (emits_expression valueShape _ (item.agrees secondAgrees)
      (fun more => large (by omega)) valueReady).mono ?_
    rintro _ after ⟨adds, valueFits⟩
    rw [itemSize, keySize] at adds
    refine ⟨⟨noExits, ?_⟩, fits bodyFits keyFits valueFits⟩
    have whole := container.trans ((item.trans (adds.trans (.instruction _ (.binary operation)))).trans
      (.instruction _ .setItem))
    rw [List.append_assoc] at whole
    exact whole

theorem emits_branch {position bodyPosition : Position} {condition : Node} {body : List Node}
    {inLoop inFunction : Bool} (conditionShape : condition.IsExpression allowed)
    (bodyShapes : ∀ item ∈ body, item.IsStatement allowed inLoop inFunction)
    (bodyEmits : ∀ item ∈ body, StatementEmits functions blamed place item) :
    StatementEmits functions blamed place (.branch position condition bodyPosition body none) := by
  intro before agrees large ready
  rcases ready with ⟨here, known, inside⟩
  have self := here _ List.mem_cons_self
  simp only [Node.statementSize, Nat.add_zero] at large
  simp only [statementBodies, List.append_nil] at known inside ⊢
  simp only [emitStatement, assembleStatement, Emits.bind_iff, Emits.newLocation_iff,
    Emits.emitJump_iff, Emits.mark_iff]
  refine (emits_expression conditionShape before agrees (fun more => large (by omega))
    (self.part (by simp [Node.parts]))).mono ?_
  rintro _ first ⟨conditionAdds, conditionFits⟩
  have firstSize := conditionAdds.size_expression conditionShape
  have start := Extends.size_opened_jumped .compare first
  rw [firstSize] at start
  rw [← start] at known inside ⊢
  have jumpedAgrees : (first.opened.jumped .compare
      first.draft.locations.size).functions.Agrees functions := conditionAdds.agrees agrees
  refine (emits_statements bodyShapes bodyEmits jumpedAgrees (fun more => large (by omega))
    ⟨fun item member => self.part
      (by simp [Node.parts, member]), known, inside⟩).mono ?_
  rintro _ second ⟨⟨numbers, bodyExtension⟩, bodyFits⟩
  have bodySize := size_assembleStatements functions place
    (fun item member => size_assembleStatement functions place (bodyShapes item member))
  have secondSize := bodyExtension.size_eq
  rw [bodySize] at secondSize
  have jumped := Extends.forward .compare (Extends.refl first.opened) bodyExtension
    second.draft.code.size (by simp only [piecesSize_nil, bodySize]; omega)
  have whole := Extends.trans conditionAdds jumped
  rw [secondSize] at whole ⊢
  refine ⟨⟨_, whole⟩, ?_, bodyFits.inside⟩
  simp only [List.mem_singleton, forall_eq]
  exact .node rfl (List.forall_mem_cons.2 ⟨conditionFits, by simpa using bodyFits.here⟩)

theorem emits_block {position : Position} {items : List Node} {inLoop inFunction : Bool}
    (shapes : ∀ item ∈ items, item.IsStatement allowed inLoop inFunction)
    (emits : ∀ item ∈ items, StatementEmits functions blamed place item) :
    StatementEmits functions blamed place (.block position items) := by
  intro before agrees large ready
  rcases ready with ⟨here, known, inside⟩
  have self := here _ List.mem_cons_self
  simp only [Node.statementSize] at large
  simp only [statementBodies] at known inside ⊢
  simp only [emitStatement, assembleStatement]
  refine (emits_statements shapes emits agrees large ⟨fun item member => self.part
    (by simp [Node.parts, member]), known, inside⟩).mono ?_
  rintro _ after ⟨extension, fits⟩
  refine ⟨extension, ?_, fits.inside⟩
  simp only [List.mem_singleton, forall_eq]
  exact .node rfl fits.here

theorem emits_branchOther {position bodyPosition : Position} {condition other : Node}
    {body : List Node} {inLoop inFunction : Bool}
    (conditionShape : condition.IsExpression allowed)
    (bodyShapes : ∀ item ∈ body, item.IsStatement allowed inLoop inFunction)
    (bodyEmits : ∀ item ∈ body, StatementEmits functions blamed place item)
    (otherSize : ∀ start, piecesSize (assembleStatement functions place start other) =
      other.statementSize place.drops)
    (otherEmits : StatementEmits functions blamed place other) :
    StatementEmits functions blamed place
      (.branch position condition bodyPosition body (some other)) := by
  intro before agrees large ready
  rcases ready with ⟨here, known, inside⟩
  have self := here _ List.mem_cons_self
  simp only [Node.statementSize] at large
  simp only [statementBodies, List.forall_mem_append] at known inside ⊢
  simp only [emitStatement, assembleStatement, Emits.bind_iff, Emits.newLocation_iff,
    Emits.emitJump_iff, Emits.mark_iff]
  refine (emits_expression conditionShape before agrees (fun more => large (by omega))
    (self.part (by simp [Node.parts]))).mono ?_
  rintro _ first ⟨conditionAdds, conditionFits⟩
  have firstSize := conditionAdds.size_expression conditionShape
  have start := Extends.size_opened_jumped .compare first
  rw [firstSize] at start
  rw [← start] at known inside ⊢
  have jumpedAgrees : (first.opened.jumped .compare
      first.draft.locations.size).functions.Agrees functions := conditionAdds.agrees agrees
  refine (emits_statements bodyShapes bodyEmits jumpedAgrees (fun more => large (by omega))
    ⟨fun item member => self.part
      (by simp [Node.parts, member]), known.1,
      inside.1⟩).mono ?_
  rintro _ second ⟨⟨numbers, bodyExtension⟩, bodyFits⟩
  have bodySize := size_assembleStatements functions place
    (fun item member => size_assembleStatement functions place (bodyShapes item member))
  have secondSize := bodyExtension.size_eq
  rw [bodySize] at secondSize
  have secondStart := Extends.size_opened_jumped .jump second
  simp only [secondStart]
  generalize middleEq : (second.opened.jumped .jump second.draft.locations.size).marked
    first.draft.locations.size (second.draft.code.size + 3) = middle
  have middleSize : middle.draft.code.size = (first.opened.jumped .compare
      first.draft.locations.size).draft.code.size + Node.statementsSize place.drops body + 3 := by
    rw [← middleEq, ← secondSize, ← secondStart]
    exact Draft.size_set _ _ _
  have middleAgrees : middle.functions.Agrees functions := by
    rw [← middleEq]
    exact bodyExtension.agrees jumpedAgrees
  rw [← middleSize] at known inside ⊢
  refine (otherEmits middle middleAgrees (fun more => large (by omega))
    ⟨?_, known.2, inside.2⟩).mono ?_
  · simp only [List.mem_singleton, forall_eq]
    exact self.part (by simp [Node.parts])
  · rintro _ third ⟨⟨others, otherExtension⟩, otherFits⟩
    have thirdSize := otherExtension.size_eq
    rw [otherSize] at thirdSize
    have secondEnd : second.draft.code.size + 3 = middle.draft.code.size := by omega
    rw [← middleEq] at otherExtension
    have whole := Extends.trans conditionAdds (bodyExtension.alternative otherExtension)
    rw [middleEq, thirdSize, secondEnd] at whole
    rw [thirdSize]
    refine ⟨⟨_, whole⟩, ?_, List.forall_mem_append.2 ⟨bodyFits.inside, otherFits.inside⟩⟩
    simp only [List.mem_singleton, forall_eq]
    exact .node rfl (List.forall_mem_cons.2 ⟨conditionFits, List.forall_mem_append.2
      ⟨bodyFits.here, otherFits.here⟩⟩)

theorem emits_looping {start : Emission} {body : List Node} {inFunction : Bool}
    (shapes : ∀ item ∈ body, item.IsStatement allowed true inFunction)
    (emits : ∀ item ∈ body, StatementEmits functions blamed place.looping item)
    (agrees : start.functions.Agrees functions)
    (large : maxOperand < start.draft.code.size + Node.statementsSize true body →
      Oversize blamed)
    (ready : BodyReady functions blamed place body
      (statementsBodies true start.draft.code.size body)) :
    Emits blamed (emitStatements place.looping body) start fun _ after =>
      (∃ numbers, Extends start
        (assembleStatements functions place.looping start.draft.code.size body)
        (statementsBodies true start.draft.code.size body) numbers [] after) ∧
      BodyFits functions place body (statementsBodies true start.draft.code.size body) := by
  have readyInside : BodyReady functions blamed place.looping body
      (statementsBodies place.looping.drops start.draft.code.size body) := by
    rw [looping_drops]
    exact ⟨fun item member => ⟨(ready.here item member).answers, (ready.here item member).blames⟩,
      ready.known, ready.inside⟩
  have inside := emits_statements shapes emits agrees (by rw [looping_drops]; exact large)
    readyInside
  simp only [looping_drops] at inside
  refine inside.mono ?_
  rintro _ after ⟨extension, fits⟩
  exact ⟨extension, fits.here, fits.inside⟩

theorem size_looping (functions : Functions) (place : Surroundings) {body : List Node}
    {inFunction : Bool} (shapes : ∀ item ∈ body, item.IsStatement allowed true inFunction)
    (start : Nat) :
    piecesSize (assembleStatements functions place.looping start body) =
      Node.statementsSize true body := by
  rw [size_assembleStatements functions place.looping
    (fun item member => size_assembleStatement functions place.looping (shapes item member)),
    looping_drops]

theorem size_appended_jump (state : Emission) (target : UInt16) :
    (state.appended (.jump target)).draft.code.size = state.draft.code.size + 3 :=
  (Extends.instruction state (.jump target)).size_eq

theorem emits_endlessLoop {position bodyPosition : Position} {body : List Node}
    {inFunction : Bool} (bodyShapes : ∀ item ∈ body, item.IsStatement allowed true inFunction)
    (bodyEmits : ∀ item ∈ body, StatementEmits functions blamed place.looping item) :
    StatementEmits functions blamed place (.endlessLoop position bodyPosition body) := by
  intro before agrees large ready
  rcases ready with ⟨here, known, inside⟩
  have self := here _ List.mem_cons_self
  simp only [Node.statementSize] at large
  simp only [statementBodies] at known inside ⊢
  simp only [emitStatement, assembleStatement, Emits.bind_iff, Emits.newLocation_iff,
    Emits.offset_iff, Emits.withLoop_iff]
  have bodyReady : BodyReady functions blamed place body
      (statementsBodies true before.opened.enclosed.draft.code.size body) :=
    ⟨fun item member => self.part
      (by simp [Node.parts, member]), known, inside⟩
  have agreesInside : before.opened.enclosed.functions.Agrees functions := agrees
  refine (emits_looping bodyShapes bodyEmits agreesInside (fun more => large (by
    simp only [Emission.enclosed_draft, Emission.opened_code] at more
    omega)) bodyReady).mono ?_
  rintro _ inner ⟨⟨numbers, extension⟩, fits⟩
  have size := size_looping functions place bodyShapes before.draft.code.size
  have stop : ((inner.appended (.jump before.draft.code.size.toUInt16))).draft.code.size =
      before.draft.code.size + Node.statementsSize true body + 3 := by
    rw [size_appended_jump, extension.size_eq]
    simp only [Emission.enclosed_draft, Emission.opened_code, size]
  simp only [Emission.enclosed_draft, Emission.opened_code] at extension
  have loop := Extends.endless extension (show before.draft.code.size +
    Node.statementsSize true body + 3 = _ by rw [size])
  simp only [Extends.size_marked, stop]
  refine ⟨⟨noExits, loop⟩, ?_, fits.inside⟩
  simp only [List.mem_singleton, forall_eq]
  exact .node rfl fits.here

theorem emits_whileLoop {position bodyPosition : Position} {condition : Node} {body : List Node}
    {inFunction : Bool} (conditionShape : condition.IsExpression allowed)
    (bodyShapes : ∀ item ∈ body, item.IsStatement allowed true inFunction)
    (bodyEmits : ∀ item ∈ body, StatementEmits functions blamed place.looping item) :
    StatementEmits functions blamed place
      (.whileLoop position condition bodyPosition body) := by
  intro before agrees large ready
  rcases ready with ⟨here, known, inside⟩
  have self := here _ List.mem_cons_self
  simp only [Node.statementSize] at large
  simp only [statementBodies] at known inside ⊢
  simp only [emitStatement, assembleStatement, Emits.bind_iff, Emits.newLocation_iff,
    Emits.offset_iff, Emits.withLoop_iff, Emits.emitJump_iff]
  have agreesInside : before.opened.enclosed.functions.Agrees functions := agrees
  refine (emits_expression conditionShape _ agreesInside (fun more => large (by
    simp only [Emission.enclosed_draft, Emission.opened_code] at more
    omega)) (self.part (by simp [Node.parts]))).mono ?_
  rintro _ tested ⟨conditionAdds, conditionFits⟩
  have testedSize := conditionAdds.size_expression conditionShape
  simp only [Emission.enclosed_draft, Emission.opened_code] at testedSize conditionAdds
  have waiting := conditionAdds.awaits (Extends.awaits_opened before.enclosed)
  have jumped := Extends.jumping .compare
    ((Extends.opening before.enclosed).trans conditionAdds) waiting (Nat.le_refl _)
    (List.mem_append_left _ List.mem_cons_self)
  have start : (tested.jumped .compare before.draft.locations.size).draft.code.size =
      before.draft.code.size + condition.expressionSize + 3 := by
    have size := jumped.size_eq
    simp only [List.nil_append, piecesSize_append, piecesSize_cons, piecesSize_nil,
      size_assembleExpression functions place conditionShape, Piece.size_hole,
      Instruction.opcode, Opcode.operandSize, Emission.enclosed_draft] at size
    omega
  rw [← start] at known inside ⊢
  have jumpedAgrees : (tested.jumped .compare before.draft.locations.size).functions.Agrees
      functions := conditionAdds.agrees agreesInside
  refine (emits_looping bodyShapes bodyEmits jumpedAgrees (fun more => large (by omega))
    ⟨fun item member => self.part
      (by simp [Node.parts, member]), known, inside⟩).mono ?_
  rintro _ inner ⟨⟨numbers, extension⟩, fits⟩
  have size := size_looping functions place bodyShapes
    (tested.jumped .compare before.draft.locations.size).draft.code.size
  have stop : ((inner.appended (.jump before.draft.code.size.toUInt16))).draft.code.size =
      (tested.jumped .compare before.draft.locations.size).draft.code.size +
        Node.statementsSize true body + 3 := by
    rw [size_appended_jump, extension.size_eq, size]
  have loop := Extends.guarded conditionAdds extension (show (tested.jumped .compare
    before.draft.locations.size).draft.code.size + Node.statementsSize true body + 3 = _ by
      rw [size, size_assembleExpression functions place conditionShape, ← start])
  simp only [Extends.size_marked, stop]
  refine ⟨⟨noExits, loop⟩, ?_, fits.inside⟩
  simp only [List.mem_singleton, forall_eq]
  exact .node rfl (List.forall_mem_cons.2 ⟨conditionFits, by simpa using fits.here⟩)

theorem emits_leave (exit : Exit) (position : Position) (inLoop : place.inLoop = true) :
    Emits blamed (emitLeave place position fun location s =>
        match exit with
        | .breaks => { s with breaks := location :: s.breaks }
        | .continues => { s with continues := location :: s.continues }) before fun _ after =>
      ∃ numbers, Extends before [.leave exit] [] numbers [] after := by
  simp only [emitLeave, inLoop, Bool.not_true, Bool.false_eq_true, if_false, Emits.bind_iff,
    Emits.newLocation_iff, Emits.modify_iff, Emits.emitJump_iff]
  have leaving := Extends.leaving exit before
  cases exit <;> exact ⟨_, leaving⟩

theorem emits_returns {position : Position} {value : Node} (inFunction : place.inFunction = true)
    (valueShape : value.IsExpression allowed) :
    StatementEmits functions blamed place (.returns position (some value)) := by
  intro before agrees large ready
  have self := ready.here _ List.mem_cons_self
  simp only [Node.statementSize] at large
  simp only [emitStatement, assembleStatement, statementBodies, inFunction, Bool.not_true,
    Bool.false_eq_true, if_false, Emits.bind_iff, Emits.emit_iff]
  refine (emits_expression valueShape before agrees (fun more => large (by omega))
    (self.part (by simp [Node.parts]))).mono ?_
  rintro _ after ⟨adds, fits⟩
  refine ⟨⟨noExits, adds.trans (.instruction _ _)⟩, ?_, by simp⟩
  simp only [List.mem_singleton, forall_eq]
  exact .node rfl (by simpa [Node.parts] using fits)

/-- A definition leaves a jump over its body and records where the body starts. -/
theorem emits_function {position bodyPosition : Position} {name : String} {params : List String}
    {body : List Node} (bodyShapes : ∀ item ∈ body, item.IsStatement allowed false true)
    (ended : Node.EndsWithReturn body)
    (bodyEmits : ∀ item ∈ body,
      StatementEmits functions blamed (innerPlace functions place name) item) :
    StatementEmits functions blamed place
      (.function position name params bodyPosition body) := by
  intro before agrees large ready
  rcases ready with ⟨here, known, inside⟩
  simp only [Node.statementSize] at large
  simp only [statementBodies, List.forall_mem_cons] at known inside ⊢
  rcases known with ⟨⟨ref, found⟩, knownInside⟩
  rcases inside with ⟨bodyReady, inside⟩
  have foundNow : ∃ now, before.functions.find? name = some now ∧ now.storage = ref.storage := by
    have present : (before.functions.find? name).isSome := by
      rw [agrees.isSome_eq name, found]
      rfl
    rcases Option.isSome_iff_exists.1 present with ⟨now, foundNow⟩
    rcases agrees.some foundNow with ⟨other, foundOther, _, sameStorage⟩
    rw [found] at foundOther
    cases foundOther
    exact ⟨now, foundNow, sameStorage.symm⟩
  rcases foundNow with ⟨now, foundNow, sameStorage⟩
  have innerEq : { place with
      scope := place.scopes[now.storage.toNat]?.getD {}
      inFunction := true
      inLoop := false } = innerPlace functions place name := by
    simp [innerPlace, found, sameStorage]
  have nonempty : body.isEmpty = false := by
    rcases ended with ⟨front, returnPosition, value, rfl⟩
    simp
  have start := Extends.size_opened_jumped .jump before
  simp only [emitStatement, assembleStatement, Emits.bind_iff, Emits.get_iff, foundNow,
    Emits.newLocation_iff, Emits.emitJump_iff, Emits.offset_iff, Emits.modify_iff, innerEq,
    nonempty, Bool.false_eq_true, if_false, Emits.mark_iff]
  rw [← start] at knownInside inside ⊢
  have recorded := Extends.recording (before.opened.jumped .jump before.draft.locations.size)
    ⟨⟨position, name, params, bodyPosition, body⟩,
      (before.opened.jumped .jump before.draft.locations.size).draft.code.size,
      (before.opened.jumped .jump before.draft.locations.size).draft.code.size +
        Node.statementsSize true body⟩
  have jumpedAgrees : (before.opened.jumped .jump
      before.draft.locations.size).functions.Agrees functions := agrees
  have sizes := size_assembleStatements functions (innerPlace functions place name)
    (fun item member => size_assembleStatement functions (innerPlace functions place name)
      (bodyShapes item member))
  have emits := emits_statements bodyShapes bodyEmits (recorded.agrees jumpedAgrees)
    (fun more => large (by rw [innerPlace_drops] at more; simp only at more; omega))
    ⟨bodyReady, knownInside, inside⟩
  refine emits.mono ?_
  rintro _ after ⟨⟨numbers, extension⟩, fits⟩
  have size := extension.size_eq
  simp only [innerPlace_drops] at extension fits sizes
  rw [sizes] at size
  have skipped := Extends.forward .jump (Extends.refl before.opened) (recorded.trans extension)
    after.draft.code.size (by rw [List.nil_append, sizes, size]; simp only [piecesSize_nil]; omega)
  rw [size] at skipped ⊢
  refine ⟨⟨_, skipped⟩, ?_, List.forall_mem_cons.2 ⟨fits.here, fits.inside⟩⟩
  simp only [List.mem_singleton, forall_eq]
  exact .node rfl (by simp [Node.parts])

/-- Emission of a statement leaves its assembled code. -/
theorem emits_statement {inLoop inFunction : Bool} {node : Node}
    (shape : node.IsStatement allowed inLoop inFunction) (place : Surroundings)
    (sameLoop : place.inLoop = inLoop) (sameFunction : place.inFunction = inFunction) :
    StatementEmits functions blamed place node := by
  induction shape generalizing place with
  | value shape lasting => exact emits_valued shape.isValued (emits_expression shape)
  | call named argShapes =>
      exact emits_valued rfl (emits_call false named argShapes
        fun arg member => emits_expression (argShapes arg member))
  | stepBefore steps operandPosition name =>
      exact emits_valued rfl (emits_stepBefore false steps)
  | stepAfter steps operandPosition name => exact emits_valued rfl (emits_stepAfter false)
  | assignment assigns targetPosition name valueShape =>
      exact emits_assignment assigns valueShape
  | itemAssignment assigns targetPosition bodyShape keyShape valueShape =>
      exact emits_itemAssignment assigns bodyShape keyShape valueShape
  | branch conditionShape bodyShapes bodyEmits =>
      exact emits_branch conditionShape bodyShapes
        fun item member => bodyEmits item member place sameLoop sameFunction
  | branchElse conditionShape bodyShapes otherShapes bodyEmits otherEmits =>
      refine emits_branchOther conditionShape bodyShapes
        (fun item member => bodyEmits item member place sameLoop sameFunction) ?_
        (emits_block otherShapes
          fun item member => otherEmits item member place sameLoop sameFunction)
      intro start
      rw [assembleStatement, Node.statementSize]
      exact size_assembleStatements functions place
        (fun item member => size_assembleStatement functions place (otherShapes item member)) start
  | branchChain conditionShape bodyShapes chained otherShape bodyEmits otherEmits =>
      exact emits_branchOther conditionShape bodyShapes
        (fun item member => bodyEmits item member place sameLoop sameFunction)
        (size_assembleStatement functions place otherShape)
        (otherEmits place sameLoop sameFunction)
  | endlessLoop bodyShapes bodyEmits =>
      exact emits_endlessLoop bodyShapes
        fun item member => bodyEmits item member place.looping rfl sameFunction
  | whileLoop conditionShape bodyShapes bodyEmits =>
      exact emits_whileLoop conditionShape bodyShapes
        fun item member => bodyEmits item member place.looping rfl sameFunction
  | breaks position =>
      intro before agrees large ready
      refine (emits_leave .breaks position sameLoop).mono fun _ after extension =>
        ⟨extension, ?_, by simp [statementBodies]⟩
      simp only [List.mem_singleton, forall_eq]
      exact .node rfl (by simp [Node.parts])
  | continues position =>
      intro before agrees large ready
      refine (emits_leave .continues position sameLoop).mono fun _ after extension =>
        ⟨extension, ?_, by simp [statementBodies]⟩
      simp only [List.mem_singleton, forall_eq]
      exact .node rfl (by simp [Node.parts])
  | returns valueShape => exact emits_returns sameFunction valueShape
  | function distinct bodyShapes ended bodyEmits =>
      exact emits_function bodyShapes ended
        fun item member => bodyEmits item member _ rfl rfl

end Statements

end Lehce.Code
