import Lehce.Proofs.Code.StatementHeights

/-!
# The code of bodies

Once it is known where the jumps out of loops lead, pieces are instructions. Where the code of
a statement stands, the code of every body that is defined in it stands as well: behind the
jump that skips it, in the surroundings that its function gives it.
-/

namespace Lehce.Code

section Pieces

variable {exits : Exit → Nat}

/-- The instructions of some pieces, given where the jumps out of the loop around them lead. -/
def pieceCode (exits : Exit → Nat) (pieces : List Piece) : List Instruction :=
  pieces.map fun piece => (piece.fillAll exits).draft

theorem pieceCode_append (front back : List Piece) :
    pieceCode exits (front ++ back) = pieceCode exits front ++ pieceCode exits back :=
  List.map_append

theorem pieceCode_cons (piece : Piece) (rest : List Piece) :
    pieceCode exits (piece :: rest) = (piece.fillAll exits).draft :: pieceCode exits rest := rfl

theorem pieceCode_plain (instruction : Instruction) (rest : List Piece) :
    pieceCode exits (.plain instruction :: rest) = instruction :: pieceCode exits rest := rfl

theorem pieceCode_plainPieces (code : List Instruction) :
    pieceCode exits (plainPieces code) = code := by
  rw [pieceCode, plainPieces, List.map_map]
  exact List.map_id' code

theorem pieceCode_loop (start stop : Nat) (pieces : List Piece) :
    pieceCode exits (pieces.map (Piece.fill .continues start ∘ Piece.fill .breaks stop)) =
      pieceCode (loopExits start stop) pieces := by
  rw [pieceCode, List.map_map]
  refine List.map_congr_left fun piece _ => ?_
  exact congrArg Piece.draft (fillAll_fillAll exits (loopExits start stop) piece)

theorem codeSize_pieceCode (pieces : List Piece) :
    codeSize (pieceCode exits pieces) = piecesSize pieces := by
  induction pieces with
  | nil => rfl
  | cons piece rest ih =>
      have size : (piece.fillAll exits).draft.size = piece.size := size_fillAll exits piece
      rw [pieceCode_cons, codeSize_cons, piecesSize_cons, ih, size]

end Pieces

section Parts

variable {allowed : Float → Prop} {functions : Functions} {code : Array UInt8}
  {place : Surroundings} {inLoop inFunction : Bool} {exits : Exit → Nat} {start : Nat}
  {position bodyPosition : Position} {condition other : Node} {body : List Node}

theorem codeSize_statements {nodes : List Node}
    (shapes : ∀ node ∈ nodes, node.IsStatement allowed inLoop inFunction) :
    codeSize (pieceCode exits (assembleStatements functions place start nodes)) =
      Node.statementsSize place.drops nodes := by
  rw [codeSize_pieceCode]
  exact size_assembleStatements functions place
    (fun node member => size_assembleStatement functions place (shapes node member)) start

/-- The code behind the test of a condition. -/
theorem stands_behind_test (conditionShape : condition.IsExpression allowed) {target : UInt16}
    {rest : List Instruction}
    (stands : Stands code start
      (assembleExpression functions place start condition ++ .compare target :: rest)) :
    Stands code (start + condition.expressionSize + 3) rest := by
  have behind := (Stands.append_iff.1 stands).2
  rw [codeSize_assembleExpression _ _ conditionShape] at behind
  exact (Stands.cons_iff.1 behind).2

/-- The code of a branch, and in it that of its body. -/
theorem stands_branch (conditionShape : condition.IsExpression allowed)
    (stands : Stands code start (pieceCode exits (assembleStatement functions place start
      (.branch position condition bodyPosition body none)))) {first second : Nat}
    (firstEq : start + condition.expressionSize + 3 = first)
    (secondEq : first + Node.statementsSize place.drops body = second) :
    (∃ rest, Stands code start (assembleExpression functions place start condition ++
        .compare second.toUInt16 :: rest)) ∧
      Stands code first (pieceCode exits (assembleStatements functions place first body)) := by
  simp only [assembleStatement, pieceCode_append, pieceCode_plain, pieceCode_plainPieces, firstEq,
    secondEq] at stands
  have inner := stands_behind_test conditionShape stands
  rw [firstEq] at inner
  exact ⟨⟨_, stands⟩, inner⟩

/-- The code of a branch, and in it that of its body, of the jump behind it and of the rest. -/
theorem stands_branchOther (conditionShape : condition.IsExpression allowed)
    (bodyShapes : ∀ item ∈ body, item.IsStatement allowed inLoop inFunction)
    (stands : Stands code start (pieceCode exits (assembleStatement functions place start
      (.branch position condition bodyPosition body (some other))))) {first second stop : Nat}
    (firstEq : start + condition.expressionSize + 3 = first)
    (secondEq : first + Node.statementsSize place.drops body = second)
    (stopEq : second + 3 + other.statementSize place.drops = stop) :
    (∃ rest, Stands code start (assembleExpression functions place start condition ++
        .compare (second + 3).toUInt16 :: rest)) ∧
      Stands code first (pieceCode exits (assembleStatements functions place first body)) ∧
      (∃ rest, Stands code second (.jump stop.toUInt16 :: rest)) ∧
      Stands code (second + 3)
        (pieceCode exits (assembleStatement functions place (second + 3) other)) := by
  simp only [assembleStatement, pieceCode_append, pieceCode_plain, pieceCode_plainPieces, firstEq,
    secondEq, stopEq] at stands
  have inner := stands_behind_test conditionShape stands
  rw [firstEq] at inner
  rcases Stands.append_iff.1 inner with ⟨bodyStands, jumpStands⟩
  rw [codeSize_statements bodyShapes, secondEq] at jumpStands
  exact ⟨⟨_, stands⟩, bodyStands, ⟨_, jumpStands⟩, (Stands.cons_iff.1 jumpStands).2⟩

/-- The code of a loop without a condition: that of its body and the jump back. -/
theorem stands_endlessLoop
    (bodyShapes : ∀ item ∈ body, item.IsStatement allowed true inFunction)
    (stands : Stands code start (pieceCode exits (assembleStatement functions place start
      (.endlessLoop position bodyPosition body)))) {last : Nat}
    (lastEq : start + Node.statementsSize true body = last) :
    Stands code start (pieceCode (loopExits start (last + 3))
        (assembleStatements functions place.looping start body)) ∧
      Stands code last [.jump start.toUInt16] := by
  simp only [assembleStatement, pieceCode_append, pieceCode_plain, pieceCode_loop, lastEq]
    at stands
  rcases Stands.append_iff.1 stands with ⟨bodyStands, jumpStands⟩
  rw [codeSize_statements bodyShapes, looping_drops, lastEq] at jumpStands
  exact ⟨bodyStands, jumpStands⟩

/-- The code of a loop with a condition: the test, that of its body and the jump back. -/
theorem stands_whileLoop (conditionShape : condition.IsExpression allowed)
    (bodyShapes : ∀ item ∈ body, item.IsStatement allowed true inFunction)
    (stands : Stands code start (pieceCode exits (assembleStatement functions place start
      (.whileLoop position condition bodyPosition body)))) {first last : Nat}
    (firstEq : start + condition.expressionSize + 3 = first)
    (lastEq : first + Node.statementsSize true body = last) :
    (∃ rest, Stands code start (assembleExpression functions place start condition ++
        .compare (last + 3).toUInt16 :: rest)) ∧
      Stands code first (pieceCode (loopExits start (last + 3))
        (assembleStatements functions place.looping first body)) ∧
      Stands code last [.jump start.toUInt16] := by
  simp only [assembleStatement, pieceCode_append, pieceCode_plain, pieceCode_plainPieces,
    pieceCode_loop, firstEq, lastEq] at stands
  have inner := stands_behind_test conditionShape stands
  rw [firstEq] at inner
  rcases Stands.append_iff.1 inner with ⟨bodyStands, jumpStands⟩
  rw [codeSize_statements bodyShapes, looping_drops, lastEq] at jumpStands
  exact ⟨⟨_, stands⟩, bodyStands, jumpStands⟩

end Parts

/-- Wherever the code of a statement stands, the bodies that it defines stand. -/
def BodiesStand (functions : Functions) (code : Array UInt8) (place : Surroundings) (node : Node) :
    Prop :=
  ∀ (exits : Exit → Nat) (start : Nat),
    Stands code start (pieceCode exits (assembleStatement functions place start node)) →
    ∀ body ∈ statementBodies place.drops start node, ∃ inner : Exit → Nat,
      Stands code body.entry (pieceCode inner (assembleStatements functions
        (innerPlace functions place body.definition.name) body.entry body.definition.body))

section Bodies

variable {allowed : Float → Prop} {functions : Functions} {code : Array UInt8}
  {place : Surroundings} {inLoop inFunction : Bool} {exits : Exit → Nat} {start : Nat}

theorem bodiesStand_statements {nodes : List Node}
    (shapes : ∀ node ∈ nodes, node.IsStatement allowed inLoop inFunction)
    (stand : ∀ node ∈ nodes, BodiesStand functions code place node)
    (stands : Stands code start (pieceCode exits (assembleStatements functions place start nodes)))
    {body : Body} (member : body ∈ statementsBodies place.drops start nodes) :
    ∃ inner : Exit → Nat, Stands code body.entry (pieceCode inner (assembleStatements functions
      (innerPlace functions place body.definition.name) body.entry body.definition.body)) := by
  induction nodes generalizing start with
  | nil => cases member
  | cons node rest ih =>
      rcases List.forall_mem_cons.1 shapes with ⟨shape, restShapes⟩
      rcases List.forall_mem_cons.1 stand with ⟨nodeStand, restStand⟩
      rw [assembleStatements, pieceCode_append] at stands
      rcases Stands.append_iff.1 stands with ⟨nodeStands, restStands⟩
      rw [codeSize_pieceCode, size_assembleStatement _ _ shape] at restStands
      rw [statementsBodies] at member
      rcases List.mem_append.1 member with inNode | inRest
      · exact nodeStand exits start nodeStands body inNode
      · exact ih restShapes restStand restStands inRest

/-- A statement that defines nothing has no bodies that could stand anywhere. -/
theorem bodiesStand_of_nil {node : Node}
    (none : ∀ start, statementBodies place.drops start node = []) :
    BodiesStand functions code place node := by
  intro exits start stands body member
  rw [none] at member
  cases member

theorem bodiesStand_statement {node : Node} (shape : node.IsStatement allowed inLoop inFunction) :
    BodiesStand functions code place node := by
  induction shape generalizing place with
  | value shape lasting =>
      exact bodiesStand_of_nil fun start => statementBodies_of_valued _ start shape.isValued
  | call | stepBefore | stepAfter =>
      exact bodiesStand_of_nil fun start => statementBodies_of_valued _ start rfl
  | assignment | itemAssignment | breaks | continues | returns =>
      exact bodiesStand_of_nil fun start => rfl
  | branch conditionShape bodyShapes bodyStand =>
      intro exits start stands inner member
      simp only [statementBodies, List.append_nil] at member
      exact bodiesStand_statements bodyShapes (fun item inside => bodyStand item inside)
        (stands_branch conditionShape stands rfl rfl).2 member
  | branchElse conditionShape bodyShapes otherShapes bodyStand otherStand =>
      intro exits start stands inner member
      rcases stands_branchOther conditionShape bodyShapes stands rfl rfl rfl with
        ⟨_, bodyStands, _, otherStands⟩
      rw [assembleStatement] at otherStands
      simp only [statementBodies, List.mem_append] at member
      rcases member with inBody | inOther
      · exact bodiesStand_statements bodyShapes (fun item inside => bodyStand item inside)
          bodyStands inBody
      · exact bodiesStand_statements otherShapes (fun item inside => otherStand item inside)
          otherStands inOther
  | branchChain conditionShape bodyShapes chained otherShape bodyStand otherStand =>
      intro exits start stands inner member
      rcases stands_branchOther conditionShape bodyShapes stands rfl rfl rfl with
        ⟨_, bodyStands, _, otherStands⟩
      simp only [statementBodies, List.mem_append] at member
      rcases member with inBody | inOther
      · exact bodiesStand_statements bodyShapes (fun item inside => bodyStand item inside)
          bodyStands inBody
      · exact otherStand exits _ otherStands inner inOther
  | endlessLoop bodyShapes bodyStand =>
      intro exits start stands inner member
      simp only [statementBodies] at member
      rw [← looping_drops place] at member
      exact bodiesStand_statements bodyShapes (fun item inside => bodyStand item inside)
        (stands_endlessLoop bodyShapes stands rfl).1 member
  | whileLoop conditionShape bodyShapes bodyStand =>
      intro exits start stands inner member
      simp only [statementBodies] at member
      rw [← looping_drops place] at member
      exact bodiesStand_statements bodyShapes (fun item inside => bodyStand item inside)
        (stands_whileLoop conditionShape bodyShapes stands rfl rfl).2.1 member
  | @function inLoop inFunction position bodyPosition name params body distinct bodyShapes ended
      bodyStand =>
      intro exits start stands inner member
      simp only [assembleStatement, pieceCode_plain] at stands
      have behind : Stands code (start + 3) _ := (Stands.cons_iff.1 stands).2
      rw [statementBodies] at member
      rcases List.mem_cons.1 member with rfl | deeper
      · exact ⟨exits, behind⟩
      · exact bodiesStand_statements bodyShapes (fun item itemMember => bodyStand item itemMember)
          behind deeper

end Bodies

end Lehce.Code
