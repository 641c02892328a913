import Lehce.Code.Emission
import Lehce.Proofs.Program.Shape

/-!
# Assembly

The code of a program, computed from its tree without patching. The sizes of all
pieces of code are known from the tree, so every target of a jump is known before
the code it leads to; only a jump that leaves a loop waits until the loop is
assembled as a whole.

Emission, which writes jumps first and patches them later, leaves exactly this
code. Laws about the code of a program are proved of the assembly.
-/

namespace Lehce

namespace Node

mutual

/-- How many bytes the code of an expression takes. -/
def expressionSize : Node → Nat
  | .literal _ _ | .nothing _ | .symbol _ _ | .path _ _ => 3
  | .binary _ left _ right => left.expressionSize + right.expressionSize + 1
  | .control _ left op right =>
    if op.isLogical then
      left.expressionSize + (if op = .or then 6 else 5) + right.expressionSize
    else left.expressionSize + right.expressionSize + 1
  | .call _ _ args _ => expressionsSize args + 5
  | .list _ items => expressionsSize items + 3
  | .dict _ entries => entriesSize entries + 3
  | .prefixed _ op operand _ => if op.isStep then 7 else operand.expressionSize + 1
  | .suffixed _ _ _ used => if used then 8 else 7
  | .index _ body key => body.expressionSize + key.expressionSize + 1
  | _ => 0

/-- How many bytes the code of some expressions takes. -/
def expressionsSize : List Node → Nat
  | [] => 0
  | node :: rest => node.expressionSize + expressionsSize rest

/-- How many bytes the code of the entries of a dictionary takes. -/
def entriesSize : List (String × Node) → Nat
  | [] => 0
  | (_, value) :: rest => 3 + value.expressionSize + entriesSize rest

end

mutual

/-- How many bytes the code of a statement takes, where values of statements are dropped or not. -/
def statementSize (drops : Bool) : Node → Nat
  | .assignment _ target op value =>
    let more := if op = .assign then 0 else 1
    match target with
    | .index _ body key =>
      body.expressionSize + key.expressionSize + 2 * more + value.expressionSize + more + 1
    | _ => 3 * more + value.expressionSize + more + 3
  | .branch _ condition _ body otherwise =>
    condition.expressionSize + 3 + statementsSize drops body +
      match otherwise with
      | none => 0
      | some other => 3 + other.statementSize drops
  | .whileLoop _ condition _ body => condition.expressionSize + 3 + statementsSize true body + 3
  | .endlessLoop _ _ body => statementsSize true body + 3
  | .breaks _ | .continues _ => 3
  | .returns _ value =>
    match value with
    | none => 0
    | some value => value.expressionSize + 1
  | .function _ _ _ _ body => 3 + statementsSize true body
  | .block _ items => statementsSize drops items
  | node => node.expressionSize + if Code.leavesValue node && drops then 1 else 0

/-- How many bytes the code of some statements takes. -/
def statementsSize (drops : Bool) : List Node → Nat
  | [] => 0
  | node :: rest => node.statementSize drops + statementsSize drops rest

end

end Node

/-- How many bytes the code of a program takes. -/
def Program.codeSize (program : Program) : Nat := Node.statementsSize false program.items

namespace Code

/-- Where a jump that leaves the body of a loop leads: behind the loop or to its start. -/
inductive Exit where
  | breaks
  | continues
  deriving DecidableEq

/--
A piece of code: an instruction, or a jump out of the body of a loop whose end is not
known yet, or an instruction whose operand is written later.
-/
inductive Piece where
  | plain (instruction : Instruction)
  | leave (exit : Exit)
  | hole (instruction : Instruction)
  deriving DecidableEq

namespace Piece

/-- The instruction that stands for a piece until it is known. -/
def draft : Piece → Instruction
  | plain instruction | hole instruction => instruction
  | leave _ => .jump 0

/-- How many bytes a piece takes. -/
def size (piece : Piece) : Nat := piece.draft.size

/-- A piece once it is known where an exit leads. -/
def fill (exit : Exit) (target : Nat) : Piece → Piece
  | leave other => if other = exit then plain (.jump target.toUInt16) else leave other
  | piece => piece

end Piece

/-- Instructions as pieces. -/
def plainPieces (instructions : List Instruction) : List Piece := instructions.map .plain

/-- How many bytes some pieces take. -/
def piecesSize : List Piece → Nat
  | [] => 0
  | piece :: rest => piece.size + piecesSize rest

/-- The bytes of some pieces, as long as their exits are not known. -/
def piecesBytes (pieces : List Piece) : List UInt8 := pieces.flatMap fun piece => piece.draft.encode

/-- Pieces with the offsets at which they stand. -/
def placed (start : Nat) : List Piece → List (Nat × Piece)
  | [] => []
  | piece :: rest => (start, piece) :: placed (start + piece.size) rest

/-- The offsets of the jumps that leave by an exit. -/
def exitSites (exit : Exit) (start : Nat) (pieces : List Piece) : List Nat :=
  (placed start pieces).filterMap fun (offset, piece) =>
    if piece = .leave exit then some offset else none

/-- The slot of a literal. -/
def literalAddress (scope : Scope) (value : Datum) : UInt16 :=
  (((ConstantKey.ofDatum? value).bind scope.constantSlot?).getD 0).toUInt16

/-- The slot of a variable. -/
def variableAddress (scope : Scope) (name : String) : UInt16 :=
  ((scope.variableSlot? name).getD 0).toUInt16

/-- The slot of what a name that is no variable stands for. -/
def foundAddress (scope : Scope) (found : Option (ConstantKey × FunctionRef)) : UInt16 :=
  ((found.bind fun constant => scope.constantSlot? constant.1).getD 0).toUInt16

/-- The slot of a symbol or a dotted name. -/
def nameAddress (functions : Functions) (place : Surroundings) : Node → UInt16
  | .symbol _ name =>
    if (place.scope.variableSlot? name).isSome then variableAddress place.scope name
    else foundAddress place.scope (resolveFunction functions place.natives name)
  | .path _ parts =>
    foundAddress place.scope (resolveNative place.natives (pathName parts))
  | _ => 0

/-- The slot of the operand of `++` or `--`. -/
def steppedAddress (scope : Scope) : Node → UInt16
  | .symbol _ name => variableAddress scope name
  | _ => 0

mutual

/-- The code of an expression that starts at an offset. -/
def assembleExpression (functions : Functions) (place : Surroundings) (start : Nat)
    (node : Node) : List Instruction :=
  match node with
  | .literal _ value => [.load (literalAddress place.scope value)]
  | .nothing _ => [.load (literalAddress place.scope .empty)]
  | .binary _ left op right =>
    assembleExpression functions place start left ++
      (assembleExpression functions place (start + left.expressionSize) right ++
        [.binary ((arithmeticOp? op).getD .add)])
  | .control _ left op right =>
    match comparisonOp? op with
    | some operation =>
      assembleExpression functions place start left ++
        (assembleExpression functions place (start + left.expressionSize) right ++
          [.binary operation])
    | none =>
      let middle := start + left.expressionSize + if op = .or then 6 else 5
      assembleExpression functions place start left ++
        ((if op = .or then [.dup, .unary .not] else [.dup]) ++
          .compare (middle + right.expressionSize).toUInt16 :: .pop ::
            assembleExpression functions place middle right)
  | .call _ callee args used =>
    assembleExpressions functions place start args ++
      [.call (nameAddress functions place callee) args.length.toUInt8 used]
  | .list _ items =>
    assembleExpressions functions place start items ++ [.initList items.length.toUInt16]
  | .dict _ entries =>
    assembleEntries functions place start entries ++ [.initDict entries.length.toUInt16]
  | .prefixed _ op operand used =>
    match op with
    | .increment | .decrement =>
      let slot := steppedAddress place.scope operand
      [.load slot, .unary (stepOp op), if used then .fastStore slot else .store slot]
    | .not => assembleExpression functions place start operand ++ [.unary .not]
    | _ => assembleExpression functions place start operand ++ [.unary .negate]
  | .suffixed _ op operand used =>
    let slot := steppedAddress place.scope operand
    .load slot :: ((if used then [.dup] else []) ++ [.unary (stepOp op), .store slot])
  | .index _ body key =>
    assembleExpression functions place start body ++
      (assembleExpression functions place (start + body.expressionSize) key ++ [.getItem])
  | node => [.load (nameAddress functions place node)]

/-- The code of some expressions, one after the other. -/
def assembleExpressions (functions : Functions) (place : Surroundings) (start : Nat) :
    List Node → List Instruction
  | [] => []
  | node :: rest =>
    assembleExpression functions place start node ++
      assembleExpressions functions place (start + node.expressionSize) rest

/-- The code of the entries of a dictionary literal: each key, then its value. -/
def assembleEntries (functions : Functions) (place : Surroundings) (start : Nat) :
    List (String × Node) → List Instruction
  | [] => []
  | (key, value) :: rest =>
    .load (literalAddress place.scope (.text key)) ::
      (assembleExpression functions place (start + 3) value ++
        assembleEntries functions place (start + 3 + value.expressionSize) rest)

end

/-- What surrounds the body of a function. -/
def innerPlace (functions : Functions) (place : Surroundings) (name : String) : Surroundings :=
  { place with
    scope := ((functions.find? name).bind fun ref => place.scopes[ref.storage.toNat]?).getD {}
    inFunction := true
    inLoop := false }

/-- The arithmetic of an assignment operator. -/
def assignedOp (op : Op) : Instruction := .binary ((arithmeticOp? op.arithmetic).getD .add)

/-- What surrounds the body of a loop. -/
def Surroundings.looping (place : Surroundings) : Surroundings := { place with inLoop := true }

/-- Whether the values of statements are dropped. -/
def Surroundings.drops (place : Surroundings) : Bool := place.inFunction || place.inLoop

mutual

/-- The code of a statement that starts at an offset. -/
def assembleStatement (functions : Functions) (place : Surroundings) (start : Nat)
    (node : Node) : List Piece :=
  match node with
  | .assignment _ target op value =>
    match target with
    | .index _ body key =>
      let middle := start + body.expressionSize + key.expressionSize
      let pieces :=
        if op = .assign then assembleExpression functions place middle value
        else .dup2 :: .getItem ::
          (assembleExpression functions place (middle + 2) value ++ [assignedOp op])
      plainPieces (assembleExpression functions place start body ++
        (assembleExpression functions place (start + body.expressionSize) key ++
          (pieces ++ [.setItem])))
    | target =>
      let slot := steppedAddress place.scope target
      let pieces :=
        if op = .assign then assembleExpression functions place start value
        else .load slot ::
          (assembleExpression functions place (start + 3) value ++ [assignedOp op])
      plainPieces (pieces ++ [.store slot])
  | .branch _ condition _ body otherwise =>
    let first := start + condition.expressionSize + 3
    let second := first + Node.statementsSize place.drops body
    plainPieces (assembleExpression functions place start condition) ++
      match otherwise with
      | none =>
        .plain (.compare second.toUInt16) :: assembleStatements functions place first body
      | some other =>
        .plain (.compare (second + 3).toUInt16) ::
          (assembleStatements functions place first body ++
            .plain (.jump (second + 3 + other.statementSize place.drops).toUInt16) ::
              assembleStatement functions place (second + 3) other)
  | .whileLoop _ condition _ body =>
    let first := start + condition.expressionSize + 3
    let stop := first + Node.statementsSize true body + 3
    plainPieces (assembleExpression functions place start condition) ++
      .plain (.compare stop.toUInt16) ::
        ((assembleStatements functions place.looping first body).map
          (Piece.fill .continues start ∘ Piece.fill .breaks stop) ++
          [.plain (.jump start.toUInt16)])
  | .endlessLoop _ _ body =>
    let stop := start + Node.statementsSize true body + 3
    (assembleStatements functions place.looping start body).map
        (Piece.fill .continues start ∘ Piece.fill .breaks stop) ++
      [.plain (.jump start.toUInt16)]
  | .breaks _ => [.leave .breaks]
  | .continues _ => [.leave .continues]
  | .returns _ value =>
    match value with
    | none => []
    | some value => plainPieces (assembleExpression functions place start value ++ [.return_])
  | .function _ name _ _ body =>
    .plain (.jump (start + 3 + Node.statementsSize true body).toUInt16) ::
      assembleStatements functions (innerPlace functions place name) (start + 3) body
  | .block _ items => assembleStatements functions place start items
  | node =>
    plainPieces (assembleExpression functions place start node ++
      if leavesValue node && place.drops then [.pop] else [])

/-- The code of some statements, one after the other. -/
def assembleStatements (functions : Functions) (place : Surroundings) (start : Nat) :
    List Node → List Piece
  | [] => []
  | node :: rest =>
    assembleStatement functions place start node ++
      assembleStatements functions place (start + node.statementSize place.drops) rest

end

/-- A function definition with the part of the code that is its body. -/
structure Body where
  definition : Definition
  entry : Nat
  stop : Nat

mutual

/-- The bodies of the functions that a statement defines, its own before those inside it. -/
def statementBodies (drops : Bool) (start : Nat) (node : Node) : List Body :=
  match node with
  | .branch _ condition _ body otherwise =>
    let first := start + condition.expressionSize + 3
    statementsBodies drops first body ++
      match otherwise with
      | none => []
      | some other => statementBodies drops (first + Node.statementsSize drops body + 3) other
  | .whileLoop _ condition _ body =>
    statementsBodies true (start + condition.expressionSize + 3) body
  | .endlessLoop _ _ body => statementsBodies true start body
  | .function position name params bodyPosition body =>
    ⟨⟨position, name, params, bodyPosition, body⟩, start + 3,
        start + 3 + Node.statementsSize true body⟩ ::
      statementsBodies true (start + 3) body
  | .block _ items => statementsBodies drops start items
  | _ => []

/-- The bodies of the functions that some statements define. -/
def statementsBodies (drops : Bool) (start : Nat) : List Node → List Body
  | [] => []
  | node :: rest =>
    statementBodies drops start node ++
      statementsBodies drops (start + node.statementSize drops) rest

end

attribute [local simp] Node.expressionSize Node.expressionsSize Node.entriesSize
  Node.statementSize Node.statementsSize assembleExpression assembleExpressions assembleEntries
  assembleStatement assembleStatements statementBodies statementsBodies

theorem Node.statementsSize_append (drops : Bool) (front back : List Node) :
    Node.statementsSize drops (front ++ back) =
      Node.statementsSize drops front + Node.statementsSize drops back := by
  induction front with
  | nil => simp
  | cons node rest ih => simp [ih, Nat.add_assoc]

theorem assembleStatements_append (functions : Functions) (place : Surroundings) (start : Nat)
    (front back : List Node) :
    assembleStatements functions place start (front ++ back) =
      assembleStatements functions place start front ++
        assembleStatements functions place (start + Node.statementsSize place.drops front) back := by
  induction front generalizing start with
  | nil => simp
  | cons node rest ih => simp [ih, Nat.add_assoc]

theorem statementsBodies_append (drops : Bool) (start : Nat) (front back : List Node) :
    statementsBodies drops start (front ++ back) =
      statementsBodies drops start front ++
        statementsBodies drops (start + Node.statementsSize drops front) back := by
  induction front generalizing start with
  | nil => simp
  | cons node rest ih => simp [ih, Nat.add_assoc]

section Pieces

@[simp]
theorem plainPieces_nil : plainPieces [] = [] := rfl

@[simp]
theorem plainPieces_cons (instruction : Instruction) (rest : List Instruction) :
    plainPieces (instruction :: rest) = .plain instruction :: plainPieces rest := rfl

@[simp]
theorem plainPieces_append (front back : List Instruction) :
    plainPieces (front ++ back) = plainPieces front ++ plainPieces back := by
  simp [plainPieces]

@[simp]
theorem piecesSize_nil : piecesSize [] = 0 := rfl

@[simp]
theorem piecesSize_cons (piece : Piece) (rest : List Piece) :
    piecesSize (piece :: rest) = piece.size + piecesSize rest := rfl

@[simp]
theorem piecesSize_append (front back : List Piece) :
    piecesSize (front ++ back) = piecesSize front + piecesSize back := by
  induction front with
  | nil => simp
  | cons piece rest ih => simp [ih, Nat.add_assoc]

@[simp]
theorem Piece.size_plain (instruction : Instruction) :
    (Piece.plain instruction).size = 1 + instruction.opcode.operandSize := rfl

@[simp]
theorem Piece.size_hole (instruction : Instruction) :
    (Piece.hole instruction).size = 1 + instruction.opcode.operandSize := rfl

@[simp]
theorem Piece.size_leave (exit : Exit) : (Piece.leave exit).size = 3 := rfl

@[simp]
theorem Piece.size_fill (exit : Exit) (target : Nat) (piece : Piece) :
    (piece.fill exit target).size = piece.size := by
  cases piece with
  | plain | hole => rfl
  | leave other =>
      simp only [fill]
      split <;> rfl

@[simp]
theorem piecesSize_map_fill (exit : Exit) (target : Nat) (pieces : List Piece) :
    piecesSize (pieces.map (Piece.fill exit target)) = piecesSize pieces := by
  induction pieces with
  | nil => rfl
  | cons piece rest ih => simp [ih]

@[simp]
theorem Piece.fill_plain (exit : Exit) (target : Nat) (instruction : Instruction) :
    (Piece.plain instruction).fill exit target = .plain instruction := rfl

@[simp]
theorem map_fill_plainPieces (exit : Exit) (target : Nat) (instructions : List Instruction) :
    (plainPieces instructions).map (Piece.fill exit target) = plainPieces instructions := by
  simp [plainPieces]

@[simp]
theorem piecesBytes_nil : piecesBytes [] = [] := rfl

@[simp]
theorem piecesBytes_cons (piece : Piece) (rest : List Piece) :
    piecesBytes (piece :: rest) = piece.draft.encode ++ piecesBytes rest := by
  simp [piecesBytes]

@[simp]
theorem piecesBytes_append (front back : List Piece) :
    piecesBytes (front ++ back) = piecesBytes front ++ piecesBytes back := by
  simp [piecesBytes]

/-- However its operands are emitted, an instruction is emitted as its bytes. -/
theorem emit_eq (instruction : Instruction) : emit instruction = emitBytes instruction.encode := by
  cases instruction with
  | call slot count used =>
      simp [emit, emitCall, Instruction.encode, Instruction.operandBytes, Instruction.opcode]
  | load word | store word | fastStore word | jump word | compare word | initList word
  | initDict word =>
      simp [emit, emitWord, Instruction.encode, Instruction.operandBytes, Instruction.opcode,
        Instruction.word, Opcode.operandSize]
  | _ => rfl

@[simp]
theorem length_encode (instruction : Instruction) :
    instruction.encode.length = instruction.size := by
  cases instruction <;> rfl

@[simp]
theorem length_piecesBytes (pieces : List Piece) :
    (piecesBytes pieces).length = piecesSize pieces := by
  induction pieces with
  | nil => rfl
  | cons piece rest ih => simp [ih, Piece.size]

@[simp]
theorem placed_nil (start : Nat) : placed start [] = [] := rfl

@[simp]
theorem placed_cons (start : Nat) (piece : Piece) (rest : List Piece) :
    placed start (piece :: rest) = (start, piece) :: placed (start + piece.size) rest := rfl

theorem placed_append (start : Nat) (front back : List Piece) :
    placed start (front ++ back) =
      placed start front ++ placed (start + piecesSize front) back := by
  induction front generalizing start with
  | nil => simp
  | cons piece rest ih => simp [ih, Nat.add_assoc]

theorem placed_map_fill (exit : Exit) (target start : Nat) (pieces : List Piece) :
    placed start (pieces.map (Piece.fill exit target)) =
      (placed start pieces).map fun (offset, piece) => (offset, piece.fill exit target) := by
  induction pieces generalizing start with
  | nil => rfl
  | cons piece rest ih => simp [ih]

@[simp]
theorem exitSites_nil (exit : Exit) (start : Nat) : exitSites exit start [] = [] := rfl

theorem exitSites_append (exit : Exit) (start : Nat) (front back : List Piece) :
    exitSites exit start (front ++ back) =
      exitSites exit start front ++ exitSites exit (start + piecesSize front) back := by
  simp [exitSites, placed_append]

@[simp]
theorem exitSites_cons_plain (exit : Exit) (start : Nat) (instruction : Instruction)
    (rest : List Piece) :
    exitSites exit start (.plain instruction :: rest) =
      exitSites exit (start + instruction.size) rest := by
  simp only [exitSites, placed_cons, List.filterMap_cons, reduceCtorEq, if_false]
  rfl

@[simp]
theorem exitSites_cons_hole (exit : Exit) (start : Nat) (instruction : Instruction)
    (rest : List Piece) :
    exitSites exit start (.hole instruction :: rest) =
      exitSites exit (start + instruction.size) rest := by
  simp only [exitSites, placed_cons, List.filterMap_cons, reduceCtorEq, if_false]
  rfl

@[simp]
theorem exitSites_plainPieces (exit : Exit) (start : Nat) (instructions : List Instruction) :
    exitSites exit start (plainPieces instructions) = [] := by
  induction instructions generalizing start with
  | nil => rfl
  | cons instruction rest ih => simp [ih]

theorem exitSites_map_fill_of_ne {exit other : Exit} (different : exit ≠ other)
    (target start : Nat) (pieces : List Piece) :
    exitSites exit start (pieces.map (Piece.fill other target)) =
      exitSites exit start pieces := by
  have same : ∀ piece : Piece, piece.fill other target = .leave exit ↔ piece = .leave exit := by
    intro piece
    cases piece with
    | plain | hole => rfl
    | leave found =>
        simp only [Piece.fill]
        split
        · rename_i equal
          simp [equal, different.symm]
        · rfl
  rw [exitSites, exitSites, placed_map_fill, List.filterMap_map]
  congr 1
  funext site
  simp only [Function.comp_apply, same]

theorem exitSites_map_fill_self (exit : Exit) (target start : Nat) (pieces : List Piece) :
    exitSites exit start (pieces.map (Piece.fill exit target)) = [] := by
  have never : ∀ piece : Piece, piece.fill exit target ≠ .leave exit := by
    intro piece
    cases piece with
    | plain | hole => simp [Piece.fill]
    | leave found =>
        simp only [Piece.fill]
        split
        · simp
        · rename_i different
          simpa using different
  rw [exitSites, placed_map_fill, List.filterMap_map, List.filterMap_eq_nil_iff]
  exact fun site _ => if_neg (never site.2)

end Pieces

section Sizes

variable {allowed : Float → Prop} (functions : Functions)

theorem size_assembleExpressions (place : Surroundings) {nodes : List Node}
    (sizes : ∀ node ∈ nodes, ∀ start,
      piecesSize (plainPieces (assembleExpression functions place start node)) =
        node.expressionSize) (start : Nat) :
    piecesSize (plainPieces (assembleExpressions functions place start nodes)) =
      Node.expressionsSize nodes := by
  induction nodes generalizing start with
  | nil => simp [assembleExpressions, Node.expressionsSize]
  | cons node rest ih =>
      rcases List.forall_mem_cons.1 sizes with ⟨first, others⟩
      simp [assembleExpressions, Node.expressionsSize, first, ih others]

theorem size_assembleEntries (place : Surroundings) {entries : List (String × Node)}
    (sizes : ∀ entry ∈ entries, ∀ start,
      piecesSize (plainPieces (assembleExpression functions place start entry.2)) =
        entry.2.expressionSize) (start : Nat) :
    piecesSize (plainPieces (assembleEntries functions place start entries)) =
      Node.entriesSize entries := by
  induction entries generalizing start with
  | nil => simp [assembleEntries, Node.entriesSize]
  | cons entry rest ih =>
      rcases List.forall_mem_cons.1 sizes with ⟨first, others⟩
      simp only [assembleEntries, Node.entriesSize, plainPieces_cons, plainPieces_append,
        piecesSize_cons, piecesSize_append, first, ih others, ← Nat.add_assoc]
      rfl

theorem size_assembleCall (place : Surroundings) {args : List Node}
    (sizes : ∀ arg ∈ args, ∀ start,
      piecesSize (plainPieces (assembleExpression functions place start arg)) =
        arg.expressionSize) (position : Position) (callee : Node) (used : Bool) (start : Nat) :
    piecesSize (plainPieces (assembleExpression functions place start
      (.call position callee args used))) = Node.expressionsSize args + 5 := by
  simp [assembleExpression, size_assembleExpressions functions place sizes, Instruction.opcode,
    Opcode.operandSize]

theorem size_assembleStepBefore (place : Surroundings) {op : Op} (steps : op.isStep)
    (position : Position) (operand : Node) (used : Bool) (start : Nat) :
    piecesSize (plainPieces (assembleExpression functions place start
      (.prefixed position op operand used))) = 7 := by
  cases op <;> cases steps <;> cases used <;>
    simp [assembleExpression, Instruction.opcode, Opcode.operandSize]

theorem size_assembleStepAfter (place : Surroundings) (position : Position) (op : Op)
    (operand : Node) (used : Bool) (start : Nat) :
    piecesSize (plainPieces (assembleExpression functions place start
      (.suffixed position op operand used))) = if used then 8 else 7 := by
  cases used <;> simp [assembleExpression, Instruction.opcode, Opcode.operandSize]

theorem comparisonOp?_isSome {op : Op} (compares : op.isComparison) :
    ∃ operation, comparisonOp? op = some operation := by
  cases op <;> cases compares <;> exact ⟨_, rfl⟩

theorem arithmeticOp?_isSome {op : Op} (arithmetic : op.isArithmetic) :
    ∃ operation, arithmeticOp? op = some operation := by
  cases op <;> cases arithmetic <;> exact ⟨_, rfl⟩

/-- The code of an expression has the size that its tree says. -/
theorem size_assembleExpression (place : Surroundings) {node : Node}
    (shape : node.IsExpression allowed) (start : Nat) :
    piecesSize (plainPieces (assembleExpression functions place start node)) =
      node.expressionSize := by
  induction shape generalizing start with
  | literal known =>
      simp [assembleExpression, Node.expressionSize, Instruction.opcode, Opcode.operandSize]
  | nothing position =>
      simp [assembleExpression, Node.expressionSize, Instruction.opcode, Opcode.operandSize]
  | name named =>
      cases named <;>
        simp [assembleExpression, Node.expressionSize, Instruction.opcode, Opcode.operandSize]
  | binary arithmetic leftShape rightShape leftSize rightSize =>
      simp [assembleExpression, Node.expressionSize, leftSize, rightSize, Instruction.opcode,
        Opcode.operandSize, Nat.add_assoc]
  | @comparison position left right op compares leftShape rightShape leftSize rightSize =>
      rcases comparisonOp?_isSome compares with ⟨operation, found⟩
      have notLogical : op.isLogical = false := by
        cases op <;> first | rfl | cases compares
      simp [assembleExpression, Node.expressionSize, found, notLogical, leftSize, rightSize,
        Instruction.opcode, Opcode.operandSize, Nat.add_assoc]
  | @logical position left right op decides leftShape rightShape leftSize rightSize =>
      cases op <;> cases decides
      · simp [assembleExpression, Node.expressionSize, comparisonOp?, Op.isLogical, leftSize,
          rightSize, Instruction.opcode, Opcode.operandSize]
        omega
      · simp [assembleExpression, Node.expressionSize, comparisonOp?, Op.isLogical, leftSize,
          rightSize, Instruction.opcode, Opcode.operandSize]
        omega
  | @call position callee args named argShapes argSizes =>
      rw [size_assembleCall functions place argSizes, Node.expressionSize]
  | @list position items itemShapes itemSizes =>
      simp [assembleExpression, Node.expressionSize, Instruction.opcode, Opcode.operandSize,
        size_assembleExpressions functions place itemSizes]
  | @dict position entries distinct valueShapes valueSizes =>
      simp [assembleExpression, Node.expressionSize, Instruction.opcode, Opcode.operandSize,
        size_assembleEntries functions place valueSizes]
  | not operandShape operandSize =>
      simp [assembleExpression, Node.expressionSize, operandSize, Op.isStep, Instruction.opcode,
        Opcode.operandSize]
  | negate unfolded operandShape operandSize =>
      simp [assembleExpression, Node.expressionSize, operandSize, Op.isStep, Instruction.opcode,
        Opcode.operandSize]
  | stepBefore steps operandPosition name =>
      rw [size_assembleStepBefore functions place steps, Node.expressionSize, if_pos steps]
  | stepAfter steps operandPosition name =>
      rw [size_assembleStepAfter functions place, Node.expressionSize]
  | index bodyShape keyShape bodySize keySize =>
      simp [assembleExpression, Node.expressionSize, bodySize, keySize, Instruction.opcode,
        Opcode.operandSize, Nat.add_assoc]

theorem assembleStatement_of_valued (place : Surroundings) (start : Nat) {node : Node}
    (valued : node.isValued) :
    assembleStatement functions place start node =
      plainPieces (assembleExpression functions place start node ++
        if leavesValue node && place.drops then [.pop] else []) := by
  cases node <;> simp_all [Node.isValued, assembleStatement]

theorem statementSize_of_valued (drops : Bool) {node : Node} (valued : node.isValued) :
    node.statementSize drops =
      node.expressionSize + if leavesValue node && drops then 1 else 0 := by
  cases node <;> simp_all [Node.isValued, Node.statementSize]

theorem statementBodies_of_valued (drops : Bool) (start : Nat) {node : Node}
    (valued : node.isValued) : statementBodies drops start node = [] := by
  cases node <;> simp_all [Node.isValued, statementBodies]

theorem size_assembleStatements (place : Surroundings) {nodes : List Node}
    (sizes : ∀ node ∈ nodes, ∀ start,
      piecesSize (assembleStatement functions place start node) =
        node.statementSize place.drops) (start : Nat) :
    piecesSize (assembleStatements functions place start nodes) =
      Node.statementsSize place.drops nodes := by
  induction nodes generalizing start with
  | nil => simp [assembleStatements, Node.statementsSize]
  | cons node rest ih =>
      rcases List.forall_mem_cons.1 sizes with ⟨first, others⟩
      simp [assembleStatements, Node.statementsSize, first, ih others]

theorem size_valued (place : Surroundings) {node : Node} (valued : node.isValued) {start : Nat}
    (sizes : piecesSize (plainPieces (assembleExpression functions place start node)) =
      node.expressionSize) :
    piecesSize (assembleStatement functions place start node) =
      node.statementSize place.drops := by
  rw [assembleStatement_of_valued functions place start valued,
    statementSize_of_valued place.drops valued, plainPieces_append, piecesSize_append, sizes]
  split <;> rfl

@[simp]
theorem looping_drops (place : Surroundings) : place.looping.drops = true := by
  simp [Surroundings.looping, Surroundings.drops]

@[simp]
theorem innerPlace_drops (place : Surroundings) (name : String) :
    (innerPlace functions place name).drops = true := rfl

/-- The code of a statement has the size that its tree says. -/
theorem size_assembleStatement (place : Surroundings) {inLoop inFunction : Bool} {node : Node}
    (shape : node.IsStatement allowed inLoop inFunction) (start : Nat) :
    piecesSize (assembleStatement functions place start node) =
      node.statementSize place.drops := by
  induction shape generalizing place start with
  | value shape lasting =>
      exact size_valued functions place shape.isValued
        (size_assembleExpression functions place shape start)
  | @call inLoop inFunction position callee args named argShapes =>
      refine size_valued functions place rfl ?_
      rw [Node.expressionSize]
      exact size_assembleCall functions place
        (fun arg member => size_assembleExpression functions place (argShapes arg member)) _ _ _ _
  | stepBefore steps operandPosition name =>
      refine size_valued functions place rfl ?_
      rw [size_assembleStepBefore functions place steps, Node.expressionSize, if_pos steps]
  | stepAfter steps operandPosition name =>
      refine size_valued functions place rfl ?_
      rw [size_assembleStepAfter functions place, Node.expressionSize]
  | @assignment inLoop inFunction position op value assigns targetPosition name valueShape =>
      have valueSize := size_assembleExpression functions place valueShape
      by_cases plain : op = .assign
      · simp [assembleStatement, Node.statementSize, plain, valueSize, Instruction.opcode,
          Opcode.operandSize]
      · simp [assembleStatement, Node.statementSize, plain, valueSize, Instruction.opcode,
          Opcode.operandSize, assignedOp]
        omega
  | @itemAssignment inLoop inFunction position op body key value assigns targetPosition bodyShape
      keyShape valueShape =>
      have bodySize := size_assembleExpression functions place bodyShape
      have keySize := size_assembleExpression functions place keyShape
      have valueSize := size_assembleExpression functions place valueShape
      by_cases plain : op = .assign
      · simp [assembleStatement, Node.statementSize, plain, bodySize, keySize, valueSize,
          Instruction.opcode, Opcode.operandSize]
        omega
      · simp [assembleStatement, Node.statementSize, plain, bodySize, keySize, valueSize,
          Instruction.opcode, Opcode.operandSize, assignedOp]
        omega
  | branch conditionShape bodyShapes bodySizes =>
      have conditionSize := size_assembleExpression functions place conditionShape
      have bodySize := size_assembleStatements functions place
        (fun item member => bodySizes item member place)
      simp [assembleStatement, Node.statementSize, conditionSize, bodySize, Instruction.opcode,
        Opcode.operandSize]
      omega
  | branchElse conditionShape bodyShapes otherShapes bodySizes otherSizes =>
      have conditionSize := size_assembleExpression functions place conditionShape
      have bodySize := size_assembleStatements functions place
        (fun item member => bodySizes item member place)
      have otherSize := size_assembleStatements functions place
        (fun item member => otherSizes item member place)
      simp [assembleStatement, Node.statementSize, conditionSize, bodySize, otherSize,
        Instruction.opcode, Opcode.operandSize]
      omega
  | branchChain conditionShape bodyShapes chained otherShape bodySizes otherSize =>
      have conditionSize := size_assembleExpression functions place conditionShape
      have bodySize := size_assembleStatements functions place
        (fun item member => bodySizes item member place)
      simp [assembleStatement, Node.statementSize, conditionSize, bodySize, otherSize,
        Instruction.opcode, Opcode.operandSize]
      omega
  | endlessLoop bodyShapes bodySizes =>
      have bodySize := size_assembleStatements functions place.looping
        (fun item member => bodySizes item member place.looping)
      simp only [looping_drops] at bodySize
      simp [assembleStatement, Node.statementSize, bodySize, ← List.map_map, Instruction.opcode,
        Opcode.operandSize]
  | whileLoop conditionShape bodyShapes bodySizes =>
      have conditionSize := size_assembleExpression functions place conditionShape
      have bodySize := size_assembleStatements functions place.looping
        (fun item member => bodySizes item member place.looping)
      simp only [looping_drops] at bodySize
      simp [assembleStatement, Node.statementSize, conditionSize, bodySize, ← List.map_map,
        Instruction.opcode, Opcode.operandSize]
      omega
  | breaks | continues => simp [assembleStatement, Node.statementSize]
  | returns valueShape =>
      have valueSize := size_assembleExpression functions place valueShape
      simp [assembleStatement, Node.statementSize, valueSize, Instruction.opcode,
        Opcode.operandSize]
  | @function inLoop inFunction position bodyPosition name params body distinct bodyShapes ended
      bodySizes =>
      have bodySize := size_assembleStatements functions (innerPlace functions place name)
        (fun item member => bodySizes item member (innerPlace functions place name))
      simp only [innerPlace_drops] at bodySize
      simp [assembleStatement, Node.statementSize, bodySize, Instruction.opcode,
        Opcode.operandSize]

end Sizes

end Code

end Lehce
