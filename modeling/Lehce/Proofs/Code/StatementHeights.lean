import Lehce.Proofs.Code.Heights

/-!
# Operands along statements

The marks of a statement are put together from those of its parts. They stand where its code
stands, and they are closed wherever the statement does: every instruction finds its
operands, and every path through the statement, also one that leaves a loop, ends without
operands.
-/

namespace Lehce.Code

/-- Where the jumps out of a loop lead. -/
def loopExits (start stop : Nat) : Exit → Nat
  | .breaks => stop
  | .continues => start

mutual

/-- The marks of a statement, given where the jumps out of the loop around it lead. -/
def markStatement (functions : Functions) (place : Surroundings) (exits : Exit → Nat)
    (start : Nat) (node : Node) : List Mark :=
  match node with
  | .branch _ condition _ body otherwise =>
    let first := start + condition.expressionSize + 3
    let second := first + Node.statementsSize place.drops body
    match otherwise with
    | none =>
      scan place.drops start 0 (assembleExpression functions place start condition ++
          [.compare second.toUInt16]) ++
        markStatements functions place exits first body
    | some other =>
      scan place.drops start 0 (assembleExpression functions place start condition ++
          [.compare (second + 3).toUInt16]) ++
        (markStatements functions place exits first body ++
          (scan place.drops second 0
              [.jump (second + 3 + other.statementSize place.drops).toUInt16] ++
            markStatement functions place exits (second + 3) other))
  | .whileLoop _ condition _ body =>
    let first := start + condition.expressionSize + 3
    let last := first + Node.statementsSize true body
    scan true start 0 (assembleExpression functions place start condition ++
        [.compare (last + 3).toUInt16]) ++
      (markStatements functions place.looping (loopExits start (last + 3)) first body ++
        scan true last 0 [.jump start.toUInt16])
  | .endlessLoop _ _ body =>
    let last := start + Node.statementsSize true body
    markStatements functions place.looping (loopExits start (last + 3)) start body ++
      scan true last 0 [.jump start.toUInt16]
  | .breaks _ => scan place.drops start 0 [.jump (exits .breaks).toUInt16]
  | .continues _ => scan place.drops start 0 [.jump (exits .continues).toUInt16]
  | .function _ name _ _ body =>
    scan place.drops start 0 [.jump (start + 3 + Node.statementsSize true body).toUInt16] ++
      markStatements functions (innerPlace functions place name) exits (start + 3) body
  | .block _ items => markStatements functions place exits start items
  | node =>
    scan place.drops start 0 ((assembleStatement functions place start node).map Piece.draft)

/-- The marks of some statements, one after the other. -/
def markStatements (functions : Functions) (place : Surroundings) (exits : Exit → Nat)
    (start : Nat) : List Node → List Mark
  | [] => []
  | node :: rest =>
    markStatement functions place exits start node ++
      markStatements functions place exits (start + node.statementSize place.drops) rest

end

section Places

variable {allowed : Float → Prop} {functions : Functions}

/-- A piece once it is known where all exits lead. -/
def Piece.fillAll (exits : Exit → Nat) (piece : Piece) : Piece :=
  (piece.fill .breaks (exits .breaks)).fill .continues (exits .continues)

/-- What stands where, according to a mark. -/
def Mark.placed (mark : Mark) : Nat × Piece := (mark.offset, .plain mark.instruction)

theorem fillAll_plain (exits : Exit → Nat) (instruction : Instruction) :
    (Piece.plain instruction).fillAll exits = .plain instruction := rfl

theorem map_fillAll_plainPieces (exits : Exit → Nat) (code : List Instruction) :
    (plainPieces code).map (Piece.fillAll exits) = plainPieces code := by
  simp [plainPieces, fillAll_plain]

/-- Where all exits are known, others do not matter. -/
theorem fillAll_fillAll (exits inner : Exit → Nat) (piece : Piece) :
    (piece.fillAll inner).fillAll exits = piece.fillAll inner := by
  cases piece with
  | plain | hole => rfl
  | leave exit => cases exit <;> rfl

theorem size_fillAll (exits : Exit → Nat) (piece : Piece) :
    (piece.fillAll exits).size = piece.size := by
  simp [Piece.fillAll]

theorem piecesSize_map_fillAll (exits : Exit → Nat) (pieces : List Piece) :
    piecesSize (pieces.map (Piece.fillAll exits)) = piecesSize pieces := by
  induction pieces with
  | nil => rfl
  | cons piece rest ih => simp [ih, size_fillAll]

theorem map_placed_scan (drops : Bool) (offset height : Nat) (code : List Instruction) :
    (scan drops offset height code).map Mark.placed = placed offset (plainPieces code) :=
  map_scan drops offset height code

theorem map_fillLoop (exits : Exit → Nat) (start stop : Nat) (pieces : List Piece) :
    (pieces.map (Piece.fill .continues start ∘ Piece.fill .breaks stop)).map
        (Piece.fillAll exits) = pieces.map (Piece.fillAll (loopExits start stop)) := by
  rw [List.map_map]
  exact List.map_congr_left fun piece _ => fillAll_fillAll exits (loopExits start stop) piece

theorem map_markStatements (exits : Exit → Nat) {place : Surroundings} {inLoop inFunction : Bool}
    {nodes : List Node} (shapes : ∀ node ∈ nodes, node.IsStatement allowed inLoop inFunction)
    (marks : ∀ node ∈ nodes, ∀ start,
      (markStatement functions place exits start node).map Mark.placed =
        placed start ((assembleStatement functions place start node).map (Piece.fillAll exits)))
    (start : Nat) :
    (markStatements functions place exits start nodes).map Mark.placed =
      placed start ((assembleStatements functions place start nodes).map
        (Piece.fillAll exits)) := by
  induction nodes generalizing start with
  | nil => simp [markStatements, assembleStatements]
  | cons node rest ih =>
      rcases List.forall_mem_cons.1 shapes with ⟨shape, restShapes⟩
      rcases List.forall_mem_cons.1 marks with ⟨first, others⟩
      simp only [markStatements, assembleStatements, List.map_append, placed_append, first,
        ih restShapes others, piecesSize_map_fillAll,
        size_assembleStatement functions place shape]

theorem map_draft_plainPieces (code : List Instruction) :
    (plainPieces code).map Piece.draft = code := by
  simp [plainPieces, Function.comp_def, Piece.draft]

/-- The marks of a statement that is made of instructions only. -/
theorem map_marks_of_plain (exits : Exit → Nat) {place : Surroundings} {start : Nat} {node : Node}
    {code : List Instruction}
    (pieces : assembleStatement functions place start node = plainPieces code)
    (marks : markStatement functions place exits start node =
      scan place.drops start 0 ((assembleStatement functions place start node).map Piece.draft)) :
    (markStatement functions place exits start node).map Mark.placed =
      placed start ((assembleStatement functions place start node).map (Piece.fillAll exits)) := by
  rw [marks, pieces, map_draft_plainPieces, map_placed_scan, map_fillAll_plainPieces]

theorem markStatement_of_valued (exits : Exit → Nat) {place : Surroundings} {start : Nat}
    {node : Node} (valued : node.isValued) :
    markStatement functions place exits start node =
      scan place.drops start 0 ((assembleStatement functions place start node).map
        Piece.draft) := by
  cases node <;> simp_all [Node.isValued, markStatement]

theorem map_marks_branchOther (exits : Exit → Nat) {place : Surroundings}
    {position bodyPosition : Position} {condition other : Node} {body : List Node}
    {inLoop inFunction : Bool} (conditionShape : condition.IsExpression allowed)
    (bodyShapes : ∀ item ∈ body, item.IsStatement allowed inLoop inFunction)
    (bodyMarks : ∀ node ∈ body, ∀ start,
      (markStatement functions place exits start node).map Mark.placed =
        placed start ((assembleStatement functions place start node).map (Piece.fillAll exits)))
    (otherMarks : ∀ start, (markStatement functions place exits start other).map Mark.placed =
      placed start ((assembleStatement functions place start other).map (Piece.fillAll exits)))
    (start : Nat) :
    (markStatement functions place exits start
        (.branch position condition bodyPosition body (some other))).map Mark.placed =
      placed start ((assembleStatement functions place start
        (.branch position condition bodyPosition body (some other))).map
          (Piece.fillAll exits)) := by
  have conditionSize := size_assembleExpression functions place conditionShape start
  have bodySize := size_assembleStatements functions place
    (fun item member => size_assembleStatement functions place (bodyShapes item member))
  simp only [markStatement, assembleStatement, List.map_append, List.map_cons,
    map_fillAll_plainPieces, placed_append, placed_cons, map_placed_scan, plainPieces_append,
    conditionSize, bodySize, plainPieces_cons, plainPieces_nil, placed_nil, fillAll_plain,
    piecesSize_map_fillAll, map_markStatements exits bodyShapes bodyMarks, otherMarks,
    List.append_assoc, List.singleton_append]
  rfl

/-- The marks of a statement stand where its code does. -/
theorem map_markStatement (exits : Exit → Nat) {place : Surroundings} {inLoop inFunction : Bool}
    {node : Node} (shape : node.IsStatement allowed inLoop inFunction) (start : Nat) :
    (markStatement functions place exits start node).map Mark.placed =
      placed start ((assembleStatement functions place start node).map
        (Piece.fillAll exits)) := by
  induction shape generalizing place start exits with
  | value shape lasting =>
      exact map_marks_of_plain exits
        (assembleStatement_of_valued functions place start shape.isValued)
        (markStatement_of_valued exits shape.isValued)
  | call | stepBefore | stepAfter =>
      exact map_marks_of_plain exits (assembleStatement_of_valued functions place start rfl)
        (markStatement_of_valued exits rfl)
  | assignment | itemAssignment | returns =>
      exact map_marks_of_plain exits rfl (by simp only [markStatement])
  | breaks | continues =>
      simp only [markStatement, assembleStatement]
      rfl
  | @branch inLoop inFunction position bodyPosition condition body conditionShape bodyShapes
      bodyMarks =>
      have conditionSize := size_assembleExpression functions place conditionShape start
      simp only [markStatement, assembleStatement, List.map_append, List.map_cons,
        map_fillAll_plainPieces, placed_append, placed_cons, map_placed_scan, plainPieces_append,
        conditionSize, plainPieces_cons, plainPieces_nil, placed_nil, fillAll_plain,
        map_markStatements exits bodyShapes fun item member => bodyMarks item member exits,
        List.append_assoc, List.singleton_append]
      rfl
  | branchElse conditionShape bodyShapes otherShapes bodyMarks otherMarks =>
      refine map_marks_branchOther exits conditionShape bodyShapes
        (fun item member => bodyMarks item member exits) ?_ start
      intro second
      rw [markStatement, assembleStatement]
      exact map_markStatements exits otherShapes
        (fun item member => otherMarks item member exits) second
  | branchChain conditionShape bodyShapes chained otherShape bodyMarks otherMarks =>
      exact map_marks_branchOther exits conditionShape bodyShapes
        (fun item member => bodyMarks item member exits) (otherMarks exits) start
  | endlessLoop bodyShapes bodyMarks =>
      have bodySize := size_looping functions place bodyShapes start
      simp only [markStatement, assembleStatement, List.map_append, map_fillLoop, placed_append,
        map_placed_scan, piecesSize_map_fillAll, bodySize,
        map_markStatements _ bodyShapes fun item member => bodyMarks item member _]
      rfl
  | @whileLoop inLoop inFunction position bodyPosition condition body conditionShape bodyShapes
      bodyMarks =>
      have conditionSize := size_assembleExpression functions place conditionShape start
      have bodySize := size_looping functions place bodyShapes (start + condition.expressionSize + 3)
      simp only [markStatement, assembleStatement, List.map_append, List.map_cons, map_fillLoop,
        map_fillAll_plainPieces, placed_append, placed_cons, map_placed_scan, plainPieces_append,
        conditionSize, plainPieces_cons, plainPieces_nil, placed_nil, fillAll_plain,
        map_markStatements _ bodyShapes fun item member => bodyMarks item member _,
        List.append_assoc, List.singleton_append, List.map_nil]
      have compareSize : ∀ target, (Piece.plain (.compare target)).size = 3 := fun _ => rfl
      simp only [compareSize, piecesSize_map_fillAll, bodySize]
  | function distinct bodyShapes ended bodyMarks =>
      simp only [markStatement, assembleStatement, List.map_append, List.map_cons, placed_cons,
        map_placed_scan, plainPieces_cons, plainPieces_nil, placed_nil, fillAll_plain,
        map_markStatements exits bodyShapes fun item member => bodyMarks item member exits,
        List.singleton_append]
      rfl

end Places

section Statements

variable {allowed : Float → Prop} {functions : Functions} {heights : Nat → Nat → Prop}

theorem exists_mark_scan (drops : Bool) (offset : Nat) {code : List Instruction}
    (nonempty : code ≠ []) :
    ∃ mark ∈ scan drops offset 0 code, mark.offset = offset ∧ mark.height = 0 := by
  cases code with
  | nil => exact (nonempty rfl).elim
  | cons instruction rest => exact ⟨_, List.mem_cons_self, rfl, rfl⟩

theorem exists_mark_append {front back : List Mark} {offset height : Nat}
    (found : ∃ mark ∈ front, mark.offset = offset ∧ mark.height = height) :
    ∃ mark ∈ front ++ back, mark.offset = offset ∧ mark.height = height := by
  rcases found with ⟨mark, member, same⟩
  exact ⟨mark, List.mem_append_left _ member, same⟩

theorem assembleExpression_ne_nil {place : Surroundings} {start : Nat} {node : Node}
    (shape : node.IsExpression allowed) : assembleExpression functions place start node ≠ [] := by
  intro empty
  have size := codeSize_assembleExpression functions place shape start
  have positive := expressionSize_pos shape
  rw [empty, codeSize_nil] at size
  omega

/-- Every statement starts with a mark that has no operands. -/
theorem exists_mark_start (exits : Exit → Nat) {place : Surroundings} {inLoop inFunction : Bool}
    {node : Node} (shape : node.IsStatement allowed inLoop inFunction) (start : Nat) :
    ∃ mark ∈ markStatement functions place exits start node,
      mark.offset = start ∧ mark.height = 0 := by
  induction shape generalizing place start exits with
  | value shape lasting =>
      rw [markStatement_of_valued exits shape.isValued,
        assembleStatement_of_valued functions place start shape.isValued, map_draft_plainPieces]
      exact exists_mark_scan _ _ (by simp [assembleExpression_ne_nil shape])
  | call | stepBefore | stepAfter =>
      rw [markStatement_of_valued exits rfl, assembleStatement_of_valued functions place start rfl,
        map_draft_plainPieces]
      refine exists_mark_scan _ _ ?_
      simp only [assembleExpression]
      split <;> simp
  | assignment | itemAssignment | returns =>
      simp only [markStatement, assembleStatement, map_draft_plainPieces]
      exact exists_mark_scan _ _ (by simp)
  | breaks | continues =>
      simp only [markStatement]
      exact exists_mark_scan _ _ (by simp)
  | branch conditionShape | branchElse conditionShape | branchChain conditionShape
  | whileLoop conditionShape =>
      simp only [markStatement]
      exact exists_mark_append (exists_mark_scan _ _ (by simp))
  | function =>
      simp only [markStatement]
      exact exists_mark_append (exists_mark_scan _ _ (by simp))
  | @endlessLoop inLoop inFunction position bodyPosition body bodyShapes bodyMarks =>
      simp only [markStatement]
      cases body with
      | nil =>
          simp only [markStatements, List.nil_append]
          exact exists_mark_scan _ _ (by simp)
      | cons node rest =>
          simp only [markStatements]
          exact exists_mark_append (exists_mark_append (bodyMarks node List.mem_cons_self _ start))

theorem heights_statement {exits : Exit → Nat} {place : Surroundings} {inLoop inFunction : Bool}
    {node : Node} (shape : node.IsStatement allowed inLoop inFunction) {start : Nat}
    (known : ∀ mark ∈ markStatement functions place exits start node,
      heights mark.offset mark.height) : heights start 0 := by
  rcases exists_mark_start exits shape start with ⟨mark, member, offset, height⟩
  have found := known mark member
  rwa [offset, height] at found

theorem heights_statements {exits : Exit → Nat} {place : Surroundings} {inLoop inFunction : Bool}
    {nodes : List Node} (shapes : ∀ node ∈ nodes, node.IsStatement allowed inLoop inFunction)
    {start : Nat} (known : ∀ mark ∈ markStatements functions place exits start nodes,
      heights mark.offset mark.height)
    (ends : heights (start + Node.statementsSize place.drops nodes) 0) : heights start 0 := by
  cases nodes with
  | nil => rwa [Node.statementsSize] at ends
  | cons node rest =>
      rw [markStatements, List.forall_mem_append] at known
      exact heights_statement (shapes node List.mem_cons_self) known.1

/-- Where the jumps out of the loop around a statement lead, there are no operands. -/
def ExitsAt (heights : Nat → Nat → Prop) (inLoop : Bool) (exits : Exit → Nat) : Prop :=
  inLoop = true → ∀ exit, exits exit ≤ maxOperand ∧ heights (exits exit) 0

/-- The marks of a statement are closed in any code that it is part of. -/
def StatementCloses (functions : Functions) (place : Surroundings) (inLoop : Bool) (node : Node) :
    Prop :=
  ∀ (heights : Nat → Nat → Prop) (exits : Exit → Nat) (start : Nat),
    start + node.statementSize place.drops ≤ maxOperand →
    BodyFits functions place [node] (statementBodies place.drops start node) →
    ExitsAt heights inLoop exits →
    (∀ mark ∈ markStatement functions place exits start node, heights mark.offset mark.height) →
    heights (start + node.statementSize place.drops) 0 →
      ∀ mark ∈ markStatement functions place exits start node, mark.IsClosed heights

theorem closes_statements {place : Surroundings} {inLoop inFunction : Bool} {nodes : List Node}
    (shapes : ∀ node ∈ nodes, node.IsStatement allowed inLoop inFunction)
    (closes : ∀ node ∈ nodes, StatementCloses functions place inLoop node) {exits : Exit → Nat}
    {start : Nat} (small : start + Node.statementsSize place.drops nodes ≤ maxOperand)
    (fits : BodyFits functions place nodes (statementsBodies place.drops start nodes))
    (exitsAt : ExitsAt heights inLoop exits)
    (known : ∀ mark ∈ markStatements functions place exits start nodes,
      heights mark.offset mark.height)
    (ends : heights (start + Node.statementsSize place.drops nodes) 0) :
    ∀ mark ∈ markStatements functions place exits start nodes, mark.IsClosed heights := by
  induction nodes generalizing start with
  | nil =>
      rw [markStatements]
      simp
  | cons node rest ih =>
      rcases List.forall_mem_cons.1 shapes with ⟨shape, restShapes⟩
      rcases List.forall_mem_cons.1 closes with ⟨nodeCloses, restCloses⟩
      rcases fits with ⟨here, inside⟩
      simp only [statementsBodies, List.forall_mem_append, List.forall_mem_cons] at here inside
      rw [Node.statementsSize, ← Nat.add_assoc] at small ends
      rw [markStatements, List.forall_mem_append] at known ⊢
      have later := heights_statements restShapes known.2 ends
      exact ⟨nodeCloses heights exits start (by omega) ⟨by simpa using here.1, inside.1⟩ exitsAt
          known.1 later,
        ih restShapes restCloses small ⟨here.2, inside.2⟩ known.2 ends⟩

/-- The marks of code that leaves no operand, or one that is not dropped. -/
theorem Leaves.closes {added start : Nat} {drops : Bool} {code : List Instruction}
    (leaves : Leaves added start code) (settled : drops = true → added = 0)
    (known : ∀ mark ∈ scan drops start 0 code, heights mark.offset mark.height)
    (ends : heights (start + codeSize code) 0) :
    ∀ mark ∈ scan drops start 0 code, mark.IsClosed heights := by
  refine leaves.steady (fun _ _ => False) drops 0 heights known ?_ (fun _ _ goes => goes.elim)
  rw [leaves.height, Nat.zero_add]
  exact ⟨0, Nat.zero_le _, ends, fun dropped => (settled dropped).symm⟩

/-- The marks of a condition and of the jump that it decides on. -/
theorem Leaves.closes_compare {start target : Nat} {drops : Bool} {code : List Instruction}
    (leaves : Leaves 1 start code) (small : target ≤ maxOperand)
    (known : ∀ mark ∈ scan drops start 0 (code ++ [.compare target.toUInt16]),
      heights mark.offset mark.height)
    (goes : heights target 0) (ends : heights (start + codeSize code + 3) 0) :
    ∀ mark ∈ scan drops start 0 (code ++ [.compare target.toUInt16]), mark.IsClosed heights := by
  have steady : Steady (fun place left => place = target ∧ left = 0) drops start 0
      (code ++ [.compare target.toUInt16]) :=
    (leaves.steady _ drops 0).append_at rfl (leaves.height 0) (.compare small ⟨rfl, rfl⟩)
  refine steady heights known ?_ ?_
  · rw [codeSize_append, ← Nat.add_assoc, heightAfter_append, leaves.height]
    exact leads_of_heights ends
  · rintro place left ⟨rfl, rfl⟩
    exact leads_of_heights goes

/-- A jump needs no operands and leads to a place without any. -/
theorem closes_jump {start target : Nat} {drops : Bool} (small : target ≤ maxOperand)
    (goes : heights target 0) :
    ∀ mark ∈ scan drops start 0 [.jump target.toUInt16], mark.IsClosed heights := by
  intro mark member
  rw [scan, scan, List.mem_singleton] at member
  subst member
  refine ⟨Nat.le_refl _, fun falls => Bool.noConfusion falls, ?_⟩
  rintro place ⟨⟩
  rw [toNat_toUInt16 small]
  exact leads_of_heights goes

section Forms

variable {place : Surroundings}

theorem BodyFits.self {node : Node} {bodies : List Body}
    (fits : BodyFits functions place [node] bodies) : Fits functions place.scope node :=
  fits.here node List.mem_cons_self

theorem leavesValue_of_value {node : Node} (shape : node.IsExpression allowed)
    (lasting : node.isEffect = false) : leavesValue node = true := by
  cases shape with
  | name named => cases named <;> rfl
  | call | stepAfter => cases lasting
  | @stepBefore _ op steps =>
      rw [Node.isEffect, steps] at lasting
      cases lasting
  | _ => rfl

/-- The marks of a statement that is made of instructions only. -/
theorem closes_plain {inLoop inFunction : Bool} {node : Node}
    (shape : node.IsStatement allowed inLoop inFunction)
    (scans : ∀ exits start, markStatement functions place exits start node =
      scan place.drops start 0 ((assembleStatement functions place start node).map Piece.draft))
    (leaves : ∀ start, start + node.statementSize place.drops ≤ maxOperand →
      Fits functions place.scope node → ∃ code added,
        assembleStatement functions place start node = plainPieces code ∧
          Leaves added start code ∧ (place.drops = true → added = 0)) :
    StatementCloses functions place inLoop node := by
  intro heights exits start small fits exitsAt known ends
  rcases leaves start small fits.self with ⟨code, added, pieces, leaves, settled⟩
  have size := size_assembleStatement functions place shape start
  rw [pieces] at size
  rw [scans, pieces, map_draft_plainPieces] at known ⊢
  refine leaves.closes settled known ?_
  rw [codeSize, size]
  exact ends

theorem closes_valued {inLoop inFunction : Bool} {node : Node}
    (shape : node.IsStatement allowed inLoop inFunction) (valued : node.isValued)
    (leaves : ∀ start, start + node.expressionSize ≤ maxOperand →
      Fits functions place.scope node → Leaves (if leavesValue node then 1 else 0) start
        (assembleExpression functions place start node)) :
    StatementCloses functions place inLoop node := by
  refine closes_plain shape (fun exits start => markStatement_of_valued exits valued) ?_
  intro start small fits
  rw [statementSize_of_valued place.drops valued] at small
  rw [assembleStatement_of_valued functions place start valued]
  have value := leaves start (by omega) fits
  by_cases pops : (leavesValue node && place.drops) = true
  · rw [if_pos pops]
    rw [Bool.and_eq_true] at pops
    rw [if_pos pops.1] at value
    exact ⟨_, 0, rfl, value.concat .pop (Nat.le_refl 1) rfl, fun _ => rfl⟩
  · rw [if_neg pops, List.append_nil]
    refine ⟨_, _, rfl, value, ?_⟩
    intro dropped
    rw [dropped, Bool.and_true, Bool.not_eq_true] at pops
    rw [pops]
    rfl

theorem closes_assignment {inLoop inFunction : Bool} {position targetPosition : Position} {op : Op}
    {name : String} {value : Node}
    (shape : Node.IsStatement allowed inLoop inFunction
      (.assignment position (.symbol targetPosition name) op value))
    (valueShape : value.IsExpression allowed) :
    StatementCloses functions place inLoop
      (.assignment position (.symbol targetPosition name) op value) := by
  refine closes_plain shape
    (fun exits start => by simp only [markStatement]) ?_
  intro start small fits
  have valueFits : Fits functions place.scope value := fits.part (by simp [Node.parts])
  simp only [assembleStatement, Node.statementSize] at small ⊢
  refine ⟨_, 0, rfl, ?_, fun _ => rfl⟩
  by_cases simple : op = .assign
  · simp only [simple, if_true] at small ⊢
    exact (leaves_expression _ _ valueShape start (by omega) valueFits).concat
      (.store _) (Nat.le_refl 1) rfl
  · simp only [simple, if_false] at small ⊢
    have loads := leaves_load start (steppedAddress place.scope (.symbol targetPosition name))
    have both := loads.append rfl
      (leaves_expression _ _ valueShape (start + 3) (by omega) valueFits)
    have computes := both.concat (assignedOp op) (Nat.le_refl 2) rfl
    rw [List.append_assoc, List.singleton_append] at computes
    exact computes.concat (.store _) (Nat.le_refl 1) rfl

theorem closes_itemAssignment {inLoop inFunction : Bool} {position targetPosition : Position}
    {op : Op} {body key value : Node}
    (shape : Node.IsStatement allowed inLoop inFunction
      (.assignment position (.index targetPosition body key) op value))
    (bodyShape : body.IsExpression allowed) (keyShape : key.IsExpression allowed)
    (valueShape : value.IsExpression allowed) :
    StatementCloses functions place inLoop
      (.assignment position (.index targetPosition body key) op value) := by
  refine closes_plain shape
    (fun exits start => by simp only [markStatement]) ?_
  intro start small fits
  have target : Fits functions place.scope (.index targetPosition body key) :=
    fits.part (by simp [Node.parts])
  have valueFits : Fits functions place.scope value := fits.part (by simp [Node.parts])
  have bodySize := codeSize_assembleExpression functions place bodyShape start
  have keySize := codeSize_assembleExpression functions place keyShape (start + body.expressionSize)
  simp only [assembleStatement, Node.statementSize] at small ⊢
  refine ⟨_, 0, rfl, ?_, fun _ => rfl⟩
  have both := (leaves_expression _ _ bodyShape start (by omega)
      (target.part (by simp [Node.parts]))).append (by rw [bodySize])
    (leaves_expression _ _ keyShape (start + body.expressionSize) (by omega)
      (target.part (by simp [Node.parts])))
  have bothSize : start + codeSize (assembleExpression functions place start body ++
      assembleExpression functions place (start + body.expressionSize) key) =
        start + body.expressionSize + key.expressionSize := by
    rw [codeSize_append, bodySize, keySize, Nat.add_assoc]
  by_cases simple : op = .assign
  · simp only [simple, if_true] at small ⊢
    have all := both.append bothSize
      (leaves_expression _ _ valueShape (start + body.expressionSize + key.expressionSize) (by omega)
        valueFits)
    have stores := all.concat .setItem (Nat.le_refl 3) rfl
    rwa [List.append_assoc, List.append_assoc] at stores
  · simp only [simple, if_false] at small ⊢
    have copies := both.concat .dup2 (Nat.le_refl 2) rfl
    have reads := copies.concat .getItem (Nat.le_add_left 2 2) rfl
    have readsSize : start + codeSize (((assembleExpression functions place start body ++
        assembleExpression functions place (start + body.expressionSize) key) ++ [.dup2]) ++
          [.getItem]) = start + body.expressionSize + key.expressionSize + 2 := by
      have dupSize : Instruction.size .dup2 = 1 := rfl
      have getSize : Instruction.size .getItem = 1 := rfl
      rw [codeSize_append, codeSize_append, codeSize_cons, codeSize_cons, codeSize_nil, dupSize,
        getSize]
      omega
    have all := reads.append readsSize (leaves_expression _ _ valueShape _ (by omega) valueFits)
    have computes := all.concat (assignedOp op) (Nat.le_add_left 2 2) rfl
    have stores : Leaves 0 start _ :=
      computes.concat .setItem (Nat.le_refl 3) rfl
    simpa only [List.append_assoc, List.cons_append, List.nil_append] using stores

theorem closes_returns {inLoop : Bool} {position : Position} {value : Node}
    (valueShape : value.IsExpression allowed) :
    StatementCloses functions place inLoop (.returns position (some value)) := by
  refine closes_plain (.returns valueShape) (fun exits start => by simp only [markStatement]) ?_
  intro start small fits
  simp only [assembleStatement, Node.statementSize] at small ⊢
  exact ⟨_, 0, rfl, (leaves_expression _ _ valueShape start (by omega)
    (fits.part (by simp [Node.parts]))).concat .return_ (Nat.le_refl 1) rfl,
    fun _ => rfl⟩

/-- The statements inside a statement fit, given the bodies that they define. -/
theorem BodyFits.parts {node : Node} {bodies : List Body} {nodes : List Node} {inner : List Body}
    (fits : BodyFits functions place [node] bodies) (parts : ∀ item ∈ nodes, item ∈ node.parts)
    (defined : ∀ body ∈ inner, body ∈ bodies) : BodyFits functions place nodes inner :=
  ⟨fun item member => fits.self.part (parts item member),
    fun body member => fits.inside body (defined body member)⟩

theorem closes_branch {position bodyPosition : Position} {condition : Node} {body : List Node}
    {inLoop inFunction : Bool} (conditionShape : condition.IsExpression allowed)
    (bodyShapes : ∀ item ∈ body, item.IsStatement allowed inLoop inFunction)
    (bodyCloses : ∀ item ∈ body, StatementCloses functions place inLoop item) :
    StatementCloses functions place inLoop
      (.branch position condition bodyPosition body none) := by
  intro heights exits start small fits exitsAt known ends
  have conditionSize := codeSize_assembleExpression functions place conditionShape start
  simp only [markStatement, Node.statementSize, Nat.add_zero, List.forall_mem_append]
    at known small ends ⊢
  have stop : start + (condition.expressionSize + 3 + Node.statementsSize place.drops body) =
    start + condition.expressionSize + 3 + Node.statementsSize place.drops body := by omega
  rw [stop] at ends
  have first := heights_statements bodyShapes known.2 ends
  have tests := leaves_expression functions place conditionShape start
    (by omega) (fits.self.part (by simp [Node.parts]))
  refine ⟨tests.closes_compare (by omega) known.1 ends (by rw [conditionSize]; exact first), ?_⟩
  refine closes_statements bodyShapes bodyCloses (by omega) ?_ exitsAt known.2 ends
  exact fits.parts (fun item member => by simp [Node.parts, member])
    (fun inner member => by simpa [statementBodies] using member)

theorem closes_branchOther {position bodyPosition : Position} {condition other : Node}
    {body : List Node} {inLoop inFunction : Bool} (conditionShape : condition.IsExpression allowed)
    (bodyShapes : ∀ item ∈ body, item.IsStatement allowed inLoop inFunction)
    (bodyCloses : ∀ item ∈ body, StatementCloses functions place inLoop item)
    (otherStarts : ∀ (heights : Nat → Nat → Prop) (exits : Exit → Nat) (start : Nat),
      (∀ mark ∈ markStatement functions place exits start other,
        heights mark.offset mark.height) →
      heights (start + other.statementSize place.drops) 0 → heights start 0)
    (otherCloses : StatementCloses functions place inLoop other) :
    StatementCloses functions place inLoop
      (.branch position condition bodyPosition body (some other)) := by
  intro heights exits start small fits exitsAt known ends
  have conditionSize := codeSize_assembleExpression functions place conditionShape start
  simp only [markStatement, Node.statementSize, List.forall_mem_append] at known small ends ⊢
  generalize firstEq : start + condition.expressionSize + 3 = first at *
  generalize secondEq : first + Node.statementsSize place.drops body = second at *
  have stop : start + (condition.expressionSize + 3 + Node.statementsSize place.drops body +
    (3 + other.statementSize place.drops)) = second + 3 + other.statementSize place.drops := by omega
  rw [stop] at ends
  have skips : heights second 0 := known.2.2.1 _ List.mem_cons_self
  have otherwise := otherStarts heights exits _ known.2.2.2 ends
  rw [← secondEq] at skips
  have starts := heights_statements bodyShapes known.2.1 skips
  have tests := leaves_expression functions place conditionShape start
    (by omega) (fits.self.part (by simp [Node.parts]))
  refine ⟨tests.closes_compare (by omega) known.1 otherwise
    (by rw [conditionSize, firstEq]; exact starts), ?_, closes_jump (by omega) ends, ?_⟩
  · refine closes_statements bodyShapes bodyCloses (by omega) ?_ exitsAt known.2.1 skips
    exact fits.parts (fun item member => by simp [Node.parts, member]) (fun inner member => by
      rw [← firstEq] at member
      simp only [statementBodies, List.mem_append]
      exact .inl member)
  · refine otherCloses heights exits _ (by omega) ?_ exitsAt known.2.2.2 ends
    exact fits.parts (fun item member => by simp [Node.parts, List.mem_singleton.1 member])
      (fun inner member => by
        rw [← secondEq, ← firstEq] at member
        simp only [statementBodies, List.mem_append]
        exact .inr member)

theorem closes_block {position : Position} {items : List Node} {inLoop inFunction : Bool}
    (shapes : ∀ item ∈ items, item.IsStatement allowed inLoop inFunction)
    (closes : ∀ item ∈ items, StatementCloses functions place inLoop item) :
    StatementCloses functions place inLoop (.block position items) := by
  intro heights exits start small fits exitsAt known ends
  simp only [markStatement, Node.statementSize] at known small ends ⊢
  refine closes_statements shapes closes small ?_ exitsAt known ends
  exact fits.parts (fun item member => by simpa [Node.parts] using member)
    (fun inner member => by simpa [statementBodies] using member)

theorem BodyFits.looping {nodes : List Node} {bodies : List Body}
    (fits : BodyFits functions place nodes bodies) :
    BodyFits functions place.looping nodes bodies := ⟨fits.here, fits.inside⟩

theorem closes_endlessLoop {position bodyPosition : Position} {body : List Node}
    {inLoop inFunction : Bool} (bodyShapes : ∀ item ∈ body, item.IsStatement allowed true inFunction)
    (bodyCloses : ∀ item ∈ body, StatementCloses functions place.looping true item) :
    StatementCloses functions place inLoop (.endlessLoop position bodyPosition body) := by
  intro heights exits start small fits exitsAt known ends
  simp only [markStatement, Node.statementSize, List.forall_mem_append, ← Nat.add_assoc]
    at known small ends ⊢
  have again : heights (start + Node.statementsSize true body) 0 :=
    known.2 _ List.mem_cons_self
  have starts : heights start 0 :=
    heights_statements bodyShapes known.1 (by rw [looping_drops]; exact again)
  refine ⟨?_, closes_jump (by omega) starts⟩
  refine closes_statements bodyShapes bodyCloses (by rw [looping_drops]; omega) ?_ ?_ known.1
    (by rw [looping_drops]; exact again)
  · exact (fits.parts (fun item member => by simpa [Node.parts] using member)
      (fun inner member => by simpa [statementBodies] using member)).looping
  · rintro _ (_ | _)
    · exact ⟨small, ends⟩
    · exact ⟨by simp only [loopExits]; omega, starts⟩

theorem closes_whileLoop {position bodyPosition : Position} {condition : Node} {body : List Node}
    {inLoop inFunction : Bool} (conditionShape : condition.IsExpression allowed)
    (bodyShapes : ∀ item ∈ body, item.IsStatement allowed true inFunction)
    (bodyCloses : ∀ item ∈ body, StatementCloses functions place.looping true item) :
    StatementCloses functions place inLoop (.whileLoop position condition bodyPosition body) := by
  intro heights exits start small fits exitsAt known ends
  have conditionSize := codeSize_assembleExpression functions place conditionShape start
  simp only [markStatement, Node.statementSize, List.forall_mem_append, ← Nat.add_assoc]
    at known small ends ⊢
  generalize firstEq : start + condition.expressionSize + 3 = first at *
  have again : heights (first + Node.statementsSize true body) 0 :=
    known.2.2 _ List.mem_cons_self
  have inner : heights first 0 :=
    heights_statements bodyShapes known.2.1 (by rw [looping_drops]; exact again)
  have starts : heights start 0 := by
    have nonempty : assembleExpression functions place start condition ++
        [.compare (first + Node.statementsSize true body + 3).toUInt16] ≠ [] := by simp
    rcases exists_mark_scan true start nonempty with ⟨mark, member, offset, height⟩
    have found := known.1 mark member
    rwa [offset, height] at found
  have tests := leaves_expression functions place conditionShape start
    (by omega) (fits.self.part (by simp [Node.parts]))
  refine ⟨tests.closes_compare (by omega) known.1 ends
    (by rw [conditionSize, firstEq]; exact inner), ?_, closes_jump (by omega) starts⟩
  refine closes_statements bodyShapes bodyCloses (by rw [looping_drops]; omega) ?_ ?_ known.2.1
    (by rw [looping_drops]; exact again)
  · refine (fits.parts (fun item member => by simp [Node.parts, member])
      (fun inner member => ?_)).looping
    rw [← firstEq, looping_drops] at member
    simpa only [statementBodies] using member
  · rintro _ (_ | _)
    · exact ⟨small, ends⟩
    · exact ⟨by simp only [loopExits]; omega, starts⟩

theorem closes_function {position bodyPosition : Position} {name : String} {params : List String}
    {body : List Node} {inLoop : Bool}
    (bodyShapes : ∀ item ∈ body, item.IsStatement allowed false true)
    (bodyCloses : ∀ item ∈ body,
      StatementCloses functions (innerPlace functions place name) false item) :
    StatementCloses functions place inLoop (.function position name params bodyPosition body) := by
  intro heights exits start small fits exitsAt known ends
  simp only [markStatement, Node.statementSize, List.forall_mem_append, ← Nat.add_assoc]
    at known small ends ⊢
  refine ⟨closes_jump small ends, ?_⟩
  refine closes_statements bodyShapes bodyCloses (by rw [innerPlace_drops]; exact small) ?_
    (fun never => Bool.noConfusion never) known.2 (by rw [innerPlace_drops]; exact ends)
  have inside := fits.inside
  simp only [statementBodies, List.forall_mem_cons] at inside
  exact ⟨inside.1, inside.2⟩

/-- The marks of every statement are closed. -/
theorem closes_statement {inLoop inFunction : Bool} {node : Node}
    (shape : node.IsStatement allowed inLoop inFunction) (place : Surroundings) :
    StatementCloses functions place inLoop node := by
  have whole := shape
  induction shape generalizing place with
  | @value inLoop inFunction node shape lasting =>
      refine closes_valued whole shape.isValued ?_
      rw [leavesValue_of_value shape lasting]
      exact leaves_expression _ _ shape
  | call named argShapes =>
      exact closes_valued whole rfl fun start small fits =>
        leaves_call false argShapes (fun arg member => leaves_expression _ _ (argShapes arg member))
          small fits
  | @stepBefore inLoop inFunction position op steps operandPosition name =>
      refine closes_valued whole rfl fun start small fits => ?_
      have unused : leavesValue (.prefixed position op (.symbol operandPosition name) false) =
          false := by
        cases op <;> first | rfl | cases steps
      rw [unused]
      exact leaves_stepBefore false steps start
  | stepAfter steps operandPosition name =>
      exact closes_valued whole rfl fun start small fits => leaves_stepAfter false start
  | assignment assigns targetPosition name valueShape =>
      exact closes_assignment whole valueShape
  | itemAssignment assigns targetPosition bodyShape keyShape valueShape =>
      exact closes_itemAssignment whole bodyShape keyShape valueShape
  | branch conditionShape bodyShapes bodyCloses =>
      exact closes_branch conditionShape bodyShapes
        fun item member => bodyCloses item member place (bodyShapes item member)
  | branchElse conditionShape bodyShapes otherShapes bodyCloses otherCloses =>
      refine closes_branchOther conditionShape bodyShapes
        (fun item member => bodyCloses item member place (bodyShapes item member)) ?_
        (closes_block otherShapes
          fun item member => otherCloses item member place (otherShapes item member))
      intro heights exits start known ends
      simp only [markStatement, Node.statementSize] at known ends
      exact heights_statements otherShapes known ends
  | branchChain conditionShape bodyShapes chained otherShape bodyCloses otherCloses =>
      exact closes_branchOther conditionShape bodyShapes
        (fun item member => bodyCloses item member place (bodyShapes item member))
        (fun heights exits start known _ => heights_statement otherShape known)
        (otherCloses place otherShape)
  | endlessLoop bodyShapes bodyCloses =>
      exact closes_endlessLoop bodyShapes
        fun item member => bodyCloses item member place.looping (bodyShapes item member)
  | whileLoop conditionShape bodyShapes bodyCloses =>
      exact closes_whileLoop conditionShape bodyShapes
        fun item member => bodyCloses item member place.looping (bodyShapes item member)
  | breaks | continues =>
      intro heights exits start small fits exitsAt known ends
      simp only [markStatement]
      exact closes_jump (exitsAt rfl _).1 (exitsAt rfl _).2
  | returns valueShape => exact closes_returns valueShape
  | function distinct bodyShapes ended bodyCloses =>
      exact closes_function bodyShapes
        fun item member => bodyCloses item member _ (bodyShapes item member)

end Forms

end Statements

end Lehce.Code
