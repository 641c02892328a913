import Lehce.Proofs.Code.Pooling

/-!
# Numbers in code

The code of a scope loads every number where the number stands. `Unit.loadedNumbers` lists the
numbers that the code of a scope loads, in the order of the code; they are what the numbers mean
that the scope is written with, in the order of the source.
-/

namespace Lehce.Code

open Classical in
/-- The numbers that a function, or the top level, loads from its constants, as they stand. -/
noncomputable def Unit.loadedNumbers (unit : Unit) (listing : List (Nat × Instruction))
    (owner : Option FunctionRef) : List Float :=
  listing.filterMap fun (offset, instruction) =>
    if unit.Belongs listing owner offset then
      (unit.storageOf? owner).bind fun storage => instruction.number? storage.constants
    else none

section Expressions

variable {functions : Functions} {place : Surroundings} {text : ScopeText}

/-- The slot of a constant loads a number only where the key is that of a number. -/
theorem number?_other (serves : place.scope.Serves functions place.natives text.params text.body)
    {key : ConstantKey} (other : ∀ bits, key ≠ .number bits) (hasSlot : place.scope.HasSlot key) :
    (Instruction.load ((place.scope.constantSlot? key).getD 0).toUInt16).number?
      place.scope.constants = none := by
  rcases hasSlot with ⟨slot, found⟩
  have inside := serves.bounded.constantSlots key slot found
  have fits := serves.bounded.fits
  rw [Instruction.number?, found, Option.getD_some, toNat_toUInt16 (by omega)]
  exact constant_other serves other found

theorem number?_literal
    (serves : place.scope.Serves functions place.natives text.params text.body) {value : Datum}
    (known : value.IsLiteral Number.IsNumber) {position : Position}
    (inside : .literal position value ∈ text.nodes) :
    (Instruction.load (literalAddress place.scope value)).number? place.scope.constants =
      value.number?.map text.pooled := by
  have keyed : isKeyed (.literal position value) :=
    isKeyed_of_expression (.literal known)
  rcases (serves.answers inside keyed).names with ⟨key, keyEq, hasSlot⟩
  have address : literalAddress place.scope value =
      ((place.scope.constantSlot? key).getD 0).toUInt16 := by
    rw [literalAddress, keyEq, Option.bind_some]
  rw [address]
  cases value with
  | number value =>
      have written : value ∈ Node.numbers text.nodes :=
        List.mem_filterMap.2 ⟨_, inside, rfl⟩
      rcases constant_number serves known written with ⟨same, slot, sameKey, found, content⟩
      rw [keyEq] at sameKey
      cases sameKey
      have bound := serves.bounded.constantSlots key slot found
      have fits := serves.bounded.fits
      rw [Instruction.number?, found, Option.getD_some, toNat_toUInt16 (by omega), content]
      rfl
  | empty | bool | text | atom =>
      cases keyEq
      exact number?_other serves (by simp) hasSlot
  | absent | list | dict | function => cases known

theorem number?_variable
    (serves : place.scope.Serves functions place.natives text.params text.body) {name : String}
    (declared : ∃ slot, place.scope.variableSlot? name = some slot) :
    (Instruction.load (variableAddress place.scope name)).number? place.scope.constants = none := by
  have bounds := variableAddress_bounds serves.bounded declared
  rw [Instruction.number?, Array.getElem?_eq_none bounds.1]
  rfl

theorem number?_name (serves : place.scope.Serves functions place.natives text.params text.body)
    {node : Node} (named : node.IsName) (inside : node ∈ text.nodes) :
    (Instruction.load (nameAddress functions place node)).number? place.scope.constants = none := by
  have answers := serves.answers inside (isKeyed_of_expression (.name named))
  cases named with
  | path position parts =>
      rcases answers.names with ⟨found, resolved, hasSlot⟩
      rcases function_of_resolveNative resolved with ⟨full, native, key⟩
      have slot := number?_other serves (by simp [key]) hasSlot
      rwa [nameAddress, foundAddress, resolved]
  | symbol position name =>
      cases declared : place.scope.variableSlot? name with
      | some slot =>
          rw [nameAddress, declared, Option.isSome_some, if_pos rfl]
          exact number?_variable serves ⟨slot, declared⟩
      | none =>
          rcases answers.names declared with ⟨found, resolved, hasSlot⟩
          rcases function_of_resolveFunction resolved with ⟨full, native, key⟩
          have slot := number?_other serves (by simp [key]) hasSlot
          rwa [nameAddress, declared, Option.isSome_none, if_neg Bool.false_ne_true, foundAddress,
            resolved]

/-- The numbers that some instructions load from some constants. -/
def loadedNumbers (constants : Array Datum) (code : List Instruction) : List Float :=
  code.filterMap (Instruction.number? constants)

/-- What the numbers among some nodes of a scope mean. -/
def ScopeText.meant (text : ScopeText) (nodes : List Node) : List Float :=
  (Node.numbers nodes).map text.pooled

@[simp]
theorem loadedNumbers_append (constants : Array Datum) (front back : List Instruction) :
    loadedNumbers constants (front ++ back) =
      loadedNumbers constants front ++ loadedNumbers constants back :=
  List.filterMap_append

@[simp]
theorem ScopeText.meant_append (text : ScopeText) (front back : List Node) :
    text.meant (front ++ back) = text.meant front ++ text.meant back := by
  simp [meant, Node.numbers]

/-- An instruction that loads no number does not count. -/
theorem loadedNumbers_cons {constants : Array Datum} {instruction : Instruction}
    (other : instruction.number? constants = none) (code : List Instruction) :
    loadedNumbers constants (instruction :: code) = loadedNumbers constants code :=
  List.filterMap_cons_none other

/-- Instructions that load no numbers come to nothing. -/
theorem loadedNumbers_eq_nil {constants : Array Datum} {code : List Instruction}
    (others : ∀ instruction ∈ code, instruction.number? constants = none) :
    loadedNumbers constants code = [] :=
  List.filterMap_eq_nil_iff.2 others

theorem ScopeText.meant_cons {text : ScopeText} {node : Node} (other : node.number? = none)
    (nodes : List Node) : text.meant (node :: nodes) = text.meant nodes := by
  simp [meant, Node.numbers, other]

/-- The code of an expression loads the numbers that the expression is written with. -/
def ExpressionLoads (functions : Functions) (place : Surroundings) (text : ScopeText)
    (node : Node) : Prop :=
  ∀ start, (∀ occurrence ∈ node.occurrences false, occurrence ∈ text.nodes) →
    loadedNumbers place.scope.constants (assembleExpression functions place start node) =
      text.meant (node.occurrences false)

theorem loads_expressions {nodes : List Node}
    (loads : ∀ node ∈ nodes, ExpressionLoads functions place text node)
    (within : ∀ occurrence ∈ Node.occurrencesAll false nodes, occurrence ∈ text.nodes)
    (start : Nat) :
    loadedNumbers place.scope.constants (assembleExpressions functions place start nodes) =
      text.meant (Node.occurrencesAll false nodes) := by
  induction nodes generalizing start with
  | nil => rfl
  | cons node rest ih =>
      rcases List.forall_mem_cons.1 loads with ⟨first, others⟩
      rw [Node.occurrencesAll, List.forall_mem_append] at within
      rw [assembleExpressions, Node.occurrencesAll, loadedNumbers_append, ScopeText.meant_append,
        first start within.1, ih others within.2]

theorem loads_entries (serves : place.scope.Serves functions place.natives text.params text.body)
    {entries : List (String × Node)}
    (loads : ∀ entry ∈ entries, ExpressionLoads functions place text entry.2)
    (keys : ∀ entry ∈ entries, place.scope.HasSlot (.text entry.1))
    (within : ∀ occurrence ∈ Node.occurrencesEntries false entries, occurrence ∈ text.nodes)
    (start : Nat) :
    loadedNumbers place.scope.constants (assembleEntries functions place start entries) =
      text.meant (Node.occurrencesEntries false entries) := by
  induction entries generalizing start with
  | nil => rfl
  | cons entry rest ih =>
      rcases List.forall_mem_cons.1 loads with ⟨first, others⟩
      rcases List.forall_mem_cons.1 keys with ⟨key, restKeys⟩
      rw [Node.occurrencesEntries, List.forall_mem_append] at within
      have keyLoad : (Instruction.load (literalAddress place.scope (.text entry.1))).number?
          place.scope.constants = none := number?_other serves (by simp) key
      rw [assembleEntries, Node.occurrencesEntries, ScopeText.meant_append, loadedNumbers,
        List.filterMap_cons_none keyLoad]
      rw [← loadedNumbers, loadedNumbers_append, first _ within.1, ih others restKeys within.2]

theorem loads_both {left right : Node} (leftLoads : ExpressionLoads functions place text left)
    (rightLoads : ExpressionLoads functions place text right)
    (leftWithin : ∀ occurrence ∈ left.occurrences false, occurrence ∈ text.nodes)
    (rightWithin : ∀ occurrence ∈ right.occurrences false, occurrence ∈ text.nodes)
    (between behind : List Instruction)
    (betweenOther : loadedNumbers place.scope.constants between = [])
    (behindOther : loadedNumbers place.scope.constants behind = []) (start middle : Nat) :
    loadedNumbers place.scope.constants (assembleExpression functions place start left ++
      (between ++ (assembleExpression functions place middle right ++ behind))) =
        text.meant (left.occurrences false ++ right.occurrences false) := by
  rw [loadedNumbers_append, loadedNumbers_append, loadedNumbers_append, betweenOther, behindOther,
    leftLoads start leftWithin, rightLoads middle rightWithin, List.append_nil, List.nil_append,
    ScopeText.meant_append]

theorem loads_call (used : Bool)
    {position : Position} {callee : Node} {args : List Node} (named : callee.IsName)
    (argLoads : ∀ arg ∈ args, ExpressionLoads functions place text arg) :
    ExpressionLoads functions place text (.call position callee args used) := by
  intro start within
  simp only [Node.occurrences, List.forall_mem_cons, List.forall_mem_append] at within
  have noNumber : text.meant (callee.occurrences false) = [] := by
    cases named <;> exact ScopeText.meant_cons rfl []
  rw [assembleExpression, Node.occurrences, ScopeText.meant_cons rfl, ScopeText.meant_append,
    noNumber, loadedNumbers_append, loads_expressions argLoads within.2.2]
  exact List.append_nil _

theorem loads_stepBefore (used : Bool)
    (serves : place.scope.Serves functions place.natives text.params text.body)
    {position operandPosition : Position} {op : Op} (steps : op.isStep) {name : String} :
    ExpressionLoads functions place text
      (.prefixed position op (.symbol operandPosition name) used) := by
  intro start within
  have declared := (serves.answers (within _ List.mem_cons_self) rfl).assigned name (by
    cases op <;> first | rfl | cases steps)
  have load := number?_variable serves declared
  have code : assembleExpression functions place start
      (.prefixed position op (.symbol operandPosition name) used) =
        [.load (variableAddress place.scope name), .unary (stepOp op),
          if used then .fastStore (variableAddress place.scope name)
          else .store (variableAddress place.scope name)] := by
    cases op <;> first | rfl | cases steps
  rw [code, Node.occurrences, ScopeText.meant_cons rfl, Node.occurrences, ScopeText.meant_cons rfl]
  refine loadedNumbers_eq_nil (List.forall_mem_cons.2 ⟨load, ?_⟩)
  cases used <;> simp [Instruction.number?]

theorem loads_stepAfter (used : Bool)
    (serves : place.scope.Serves functions place.natives text.params text.body)
    {position operandPosition : Position} {op : Op} {name : String} :
    ExpressionLoads functions place text
      (.suffixed position op (.symbol operandPosition name) used) := by
  intro start within
  have declared := (serves.answers (within _ List.mem_cons_self) rfl).assigned name rfl
  have load := number?_variable serves declared
  rw [assembleExpression, Node.occurrences, ScopeText.meant_cons rfl, Node.occurrences,
    ScopeText.meant_cons rfl]
  refine loadedNumbers_eq_nil (List.forall_mem_cons.2 ⟨load, ?_⟩)
  cases used <;> simp [Instruction.number?]

/-- Each expression loads its numbers in their order. -/
theorem loads_expression
    (serves : place.scope.Serves functions place.natives text.params text.body) {node : Node}
    (shape : node.IsExpression Number.IsNumber) : ExpressionLoads functions place text node := by
  induction shape with
  | @literal position value known =>
      intro start within
      have load := number?_literal serves known (within _ List.mem_cons_self)
      rw [assembleExpression, loadedNumbers, Node.occurrences, ScopeText.meant, Node.numbers]
      have isNumber : (Node.literal position value).number? = value.number? := rfl
      cases number : value.number? with
      | none =>
          rw [number] at load isNumber
          rw [List.filterMap_cons_none load, List.filterMap_cons_none isNumber]
          rfl
      | some number =>
          rw [number] at load isNumber
          rw [List.filterMap_cons_some load, List.filterMap_cons_some isNumber]
          rfl
  | nothing position =>
      intro start within
      have hasSlot : place.scope.HasSlot .empty :=
        (serves.answers (within _ List.mem_cons_self) rfl).names
      have load : (Instruction.load (literalAddress place.scope .empty)).number?
          place.scope.constants = none := number?_other serves (by simp) hasSlot
      rw [assembleExpression, Node.occurrences, ScopeText.meant_cons rfl]
      exact loadedNumbers_eq_nil (by simpa using load)
  | name named =>
      intro start within
      cases named <;>
      · have load := number?_name serves (by constructor) (within _ List.mem_cons_self)
        rw [assembleExpression, Node.occurrences, ScopeText.meant_cons rfl]
        · exact loadedNumbers_eq_nil (by simpa using load)
        all_goals simp
  | binary arithmetic leftShape rightShape leftLoads rightLoads =>
      intro start within
      simp only [Node.occurrences, List.forall_mem_cons, List.forall_mem_append] at within
      rw [assembleExpression, Node.occurrences, ScopeText.meant_cons rfl]
      exact loads_both leftLoads rightLoads within.2.1 within.2.2 [] _ rfl rfl _ _
  | comparison compares leftShape rightShape leftLoads rightLoads =>
      intro start within
      simp only [Node.occurrences, List.forall_mem_cons, List.forall_mem_append] at within
      rcases comparisonOp?_isSome compares with ⟨operation, found⟩
      rw [assembleExpression, found, Node.occurrences, ScopeText.meant_cons rfl]
      exact loads_both leftLoads rightLoads within.2.1 within.2.2 [] _ rfl rfl _ _
  | @logical position left right op decides leftShape rightShape leftLoads rightLoads =>
      intro start within
      simp only [Node.occurrences, List.forall_mem_cons, List.forall_mem_append] at within
      have whole := fun (tests : List Instruction) (skip : UInt16)
          (other : loadedNumbers place.scope.constants (tests ++ [.compare skip, .pop]) = [])
          (middle : Nat) =>
        loads_both leftLoads rightLoads within.2.1 within.2.2 _ [] other rfl start middle
      simp only [List.append_nil] at whole
      rw [Node.occurrences, ScopeText.meant_cons rfl]
      cases op <;> cases decides
      · exact whole [.dup] _ rfl _
      · exact whole [.dup, .unary .not] _ rfl _
  | call named argShapes argLoads => exact loads_call true named argLoads
  | list itemShapes itemLoads =>
      intro start within
      simp only [Node.occurrences, List.forall_mem_cons] at within
      rw [assembleExpression, Node.occurrences, ScopeText.meant_cons rfl, loadedNumbers_append,
        loads_expressions itemLoads within.2]
      exact List.append_nil _
  | dict distinct valueShapes valueLoads =>
      intro start within
      have keys := (serves.answers (within _ List.mem_cons_self) rfl).names
      simp only [Node.occurrences, List.forall_mem_cons] at within
      rw [assembleExpression, Node.occurrences, ScopeText.meant_cons rfl, loadedNumbers_append,
        loads_entries serves valueLoads keys within.2]
      exact List.append_nil _
  | not operandShape operandLoads =>
      intro start within
      simp only [Node.occurrences, List.forall_mem_cons] at within
      rw [assembleExpression, Node.occurrences, ScopeText.meant_cons rfl, loadedNumbers_append,
        operandLoads start within.2]
      exact List.append_nil _
  | negate unfolded operandShape operandLoads =>
      intro start within
      simp only [Node.occurrences, List.forall_mem_cons] at within
      simp only [assembleExpression]
      rw [Node.occurrences, ScopeText.meant_cons rfl, loadedNumbers_append,
        operandLoads start within.2]
      exact List.append_nil _
  | stepBefore steps operandPosition name => exact loads_stepBefore true serves steps
  | stepAfter steps operandPosition name => exact loads_stepAfter true serves
  | index bodyShape keyShape bodyLoads keyLoads =>
      intro start within
      simp only [Node.occurrences, List.forall_mem_cons, List.forall_mem_append] at within
      rw [assembleExpression, Node.occurrences, ScopeText.meant_cons rfl]
      exact loads_both bodyLoads keyLoads within.2.1 within.2.2 [] _ rfl rfl _ _

end Expressions

section Owned

/-- The number that a piece of code loads from some constants. -/
def Piece.number? (constants : Array Datum) : Piece → Option Float
  | .plain instruction => instruction.number? constants
  | .leave _ | .hole _ => none

open Classical in
/-- The numbers that pieces of code load at the offsets of an owner. -/
noncomputable def ownedNumbers (owns : Nat → Prop) (constants : Array Datum) (start : Nat)
    (pieces : List Piece) : List Float :=
  (placed start pieces).filterMap fun (offset, piece) =>
    if owns offset then piece.number? constants else none

variable {owns others : Nat → Prop} {constants : Array Datum} {start : Nat} {pieces : List Piece}

theorem ownedNumbers_append (owns : Nat → Prop) (constants : Array Datum) (start : Nat)
    (front back : List Piece) :
    ownedNumbers owns constants start (front ++ back) =
      ownedNumbers owns constants start front ++
        ownedNumbers owns constants (start + piecesSize front) back := by
  rw [ownedNumbers, placed_append, List.filterMap_append]
  rfl

/-- Only the offsets of the pieces matter. -/
theorem ownedNumbers_congr
    (same : ∀ offset, start ≤ offset → offset < start + piecesSize pieces →
      (owns offset ↔ others offset)) :
    ownedNumbers owns constants start pieces = ownedNumbers others constants start pieces := by
  apply List.filterMap_congr
  rintro ⟨offset, piece⟩ member
  have bounds := placed_bounds member
  have agree := same offset bounds.1 bounds.2
  by_cases owned : owns offset
  · simp only [owned, agree.1 owned, if_true]
  · have notOther : ¬others offset := fun other => owned (agree.2 other)
    simp only [owned, notOther, if_false]

theorem ownedNumbers_eq_nil
    (never : ∀ offset, start ≤ offset → offset < start + piecesSize pieces → ¬owns offset) :
    ownedNumbers owns constants start pieces = [] := by
  rw [ownedNumbers, List.filterMap_eq_nil_iff]
  rintro ⟨offset, piece⟩ member
  have bounds := placed_bounds member
  simp only [never offset bounds.1 bounds.2, if_false]

theorem ownedNumbers_plainPieces {code : List Instruction}
    (always : ∀ offset, start ≤ offset → offset < start + piecesSize (plainPieces code) →
      owns offset) :
    ownedNumbers owns constants start (plainPieces code) = loadedNumbers constants code := by
  induction code generalizing start with
  | nil => rfl
  | cons instruction rest ih =>
      have size := instruction.size_pos
      rw [plainPieces_cons, piecesSize_cons] at always
      have here : owns start := always start le_rfl (by
        rw [Piece.size_plain]
        omega)
      have later := @ih (start + (Piece.plain instruction).size)
        fun offset behind before => always offset (by omega) (by omega)
      rw [ownedNumbers] at later
      rw [ownedNumbers, loadedNumbers, plainPieces_cons, placed_cons, List.filterMap_cons,
        List.filterMap_cons, later]
      simp only [here, if_true]
      rfl

theorem ownedNumbers_map_fill (owns : Nat → Prop) (constants : Array Datum) (start : Nat)
    (pieces : List Piece) (exit : Exit) (target : Nat) :
    ownedNumbers owns constants start (pieces.map (Piece.fill exit target)) =
      ownedNumbers owns constants start pieces := by
  have same : ∀ piece : Piece, (piece.fill exit target).number? constants =
      piece.number? constants := by
    intro piece
    cases piece with
    | plain | hole => rfl
    | leave other =>
        simp only [Piece.fill]
        split <;> rfl
  simp only [ownedNumbers, placed_map_fill, List.filterMap_map, Function.comp_def, same]

end Owned

/-- Pieces of code load the numbers of a text, and those of the bodies in them. -/
structure Loads (functions : Functions) (scopes : Array Scope) (scope : Scope) (text : ScopeText)
    (start : Nat) (pieces : List Piece) (bodies : List Body) (nodes : List Node) : Prop where
  own : ownedNumbers (IsFree bodies) scope.constants start pieces = text.meant nodes
  inner : ∀ body ∈ bodies, ownedNumbers (body.Holds bodies)
    (innerScope functions scopes body.definition.name).constants start pieces =
      body.definition.text.meant body.definition.text.nodes
  bounds : ∀ body ∈ bodies, start + 3 ≤ body.entry ∧ body.stop ≤ start + piecesSize pieces

namespace Loads

variable {functions : Functions} {scopes : Array Scope} {scope : Scope} {text : ScopeText}
  {start : Nat} {front back pieces : List Piece} {frontBodies backBodies bodies : List Body}
  {frontNodes backNodes nodes : List Node}

theorem isFree_append_iff {frontBodies backBodies : List Body} {offset : Nat} :
    IsFree (frontBodies ++ backBodies) offset ↔
      IsFree frontBodies offset ∧ IsFree backBodies offset := by
  simp only [IsFree, List.forall_mem_append]

/-- Pieces that stand one after the other load their numbers one after the other. -/
theorem append (loads : Loads functions scopes scope text start front frontBodies frontNodes)
    (following : Loads functions scopes scope text (start + piecesSize front) back backBodies
      backNodes) :
    Loads functions scopes scope text start (front ++ back) (frontBodies ++ backBodies)
      (frontNodes ++ backNodes) := by
  -- Bodies in one part cover no offset of the other.
  have behind : ∀ body ∈ backBodies, ∀ offset, offset < start + piecesSize front →
      ¬body.Covers offset := by
    intro body member offset before covers
    have bounds := following.bounds body member
    have entered := covers.1
    omega
  have before : ∀ body ∈ frontBodies, ∀ offset, start + piecesSize front ≤ offset →
      ¬body.Covers offset := by
    intro body member offset after covers
    have bounds := loads.bounds body member
    have left := covers.2
    omega
  refine ⟨?_, ?_, ?_⟩
  · rw [ownedNumbers_append, ScopeText.meant_append, ← loads.own, ← following.own]
    congr 1
    · refine ownedNumbers_congr fun offset _ inside => ?_
      rw [isFree_append_iff]
      exact ⟨And.left, fun free => ⟨free, fun body member => behind body member offset inside⟩⟩
    · refine ownedNumbers_congr fun offset inside _ => ?_
      rw [isFree_append_iff]
      exact ⟨And.right, fun free => ⟨fun body member => before body member offset inside, free⟩⟩
  · intro body member
    rw [ownedNumbers_append]
    rcases List.mem_append.1 member with inFront | inBack
    · rw [← loads.inner body inFront]
      have later : ownedNumbers (body.Holds (frontBodies ++ backBodies))
          (innerScope functions scopes body.definition.name).constants
          (start + piecesSize front) back = [] :=
        ownedNumbers_eq_nil fun offset inside _ holds =>
          before body inFront offset inside holds.1
      rw [later, List.append_nil]
      refine ownedNumbers_congr fun offset _ inside => ?_
      simp only [Body.Holds, List.forall_mem_append]
      exact ⟨fun holds => ⟨holds.1, holds.2.1⟩, fun holds => ⟨holds.1, holds.2,
        fun other otherMember _ => behind other otherMember offset inside⟩⟩
    · rw [← following.inner body inBack]
      have earlier : ownedNumbers (body.Holds (frontBodies ++ backBodies))
          (innerScope functions scopes body.definition.name).constants start front = [] :=
        ownedNumbers_eq_nil fun offset _ inside holds => behind body inBack offset inside holds.1
      rw [earlier, List.nil_append]
      refine ownedNumbers_congr fun offset inside _ => ?_
      simp only [Body.Holds, List.forall_mem_append]
      exact ⟨fun holds => ⟨holds.1, holds.2.2⟩, fun holds => ⟨holds.1,
        fun other otherMember _ => before other otherMember offset inside, holds.2⟩⟩
  · intro body member
    rw [piecesSize_append]
    rcases List.mem_append.1 member with inFront | inBack
    · have bounds := loads.bounds body inFront
      omega
    · have bounds := following.bounds body inBack
      omega

theorem append_at {middle : Nat}
    (loads : Loads functions scopes scope text start front frontBodies frontNodes)
    (middleEq : start + piecesSize front = middle)
    (following : Loads functions scopes scope text middle back backBodies backNodes) :
    Loads functions scopes scope text start (front ++ back) (frontBodies ++ backBodies)
      (frontNodes ++ backNodes) := by
  subst middleEq
  exact loads.append following

/-- Instructions that are in no body load their numbers. -/
theorem plain {code : List Instruction}
    (loads : loadedNumbers scope.constants code = text.meant nodes) (start : Nat) :
    Loads functions scopes scope text start (plainPieces code) [] nodes := by
  refine ⟨?_, by simp, by simp⟩
  rw [← loads]
  exact ownedNumbers_plainPieces fun _ _ _ => by simp [IsFree]

/-- Instructions that load no number do not count. -/
theorem quiet (code : List Instruction) (other : loadedNumbers scope.constants code = [])
    (start : Nat) : Loads functions scopes scope text start (plainPieces code) [] [] :=
  plain other start

/-- A node that is no number does not count. -/
theorem cons {node : Node} (loads : Loads functions scopes scope text start pieces bodies nodes)
    (other : node.number? = none) :
    Loads functions scopes scope text start pieces bodies (node :: nodes) := by
  refine ⟨?_, loads.inner, loads.bounds⟩
  rw [loads.own, ScopeText.meant_cons other]

theorem fill (loads : Loads functions scopes scope text start pieces bodies nodes) (exit : Exit)
    (target : Nat) :
    Loads functions scopes scope text start (pieces.map (Piece.fill exit target)) bodies nodes := by
  refine ⟨?_, ?_, ?_⟩
  · rw [ownedNumbers_map_fill]
    exact loads.own
  · intro body member
    rw [ownedNumbers_map_fill]
    exact loads.inner body member
  · rw [piecesSize_map_fill]
    exact loads.bounds

/-- A definition loads no number itself, and its body loads the numbers of its text. -/
theorem function (body : Body)
    (loads : Loads functions scopes (innerScope functions scopes body.definition.name)
      body.definition.text body.entry pieces bodies body.definition.text.nodes)
    (entry : body.entry = start + 3) (stop : body.stop = body.entry + piecesSize pieces)
    (target : UInt16) :
    Loads functions scopes scope text start (.plain (.jump target) :: pieces) (body :: bodies)
      [] := by
  have jumpSize : (Piece.plain (.jump target)).size = 3 := rfl
  have skip : ∀ (owns : Nat → Prop) (constants : Array Datum),
      ownedNumbers owns constants start (.plain (.jump target) :: pieces) =
        ownedNumbers owns constants body.entry pieces := by
    intro owns constants
    rw [← List.singleton_append, ownedNumbers_append, entry]
    have nothing : ownedNumbers owns constants start [.plain (.jump target)] = [] := by
      simp [ownedNumbers, placed_cons, Piece.number?, Instruction.number?]
    rw [nothing]
    rfl
  have covers : ∀ offset, body.entry ≤ offset → offset < body.entry + piecesSize pieces →
      body.Covers offset := fun offset behind before => ⟨behind, by omega⟩
  refine ⟨?_, ?_, ?_⟩
  · rw [skip]
    refine ownedNumbers_eq_nil fun offset behind before free => ?_
    exact free body List.mem_cons_self (covers offset behind before)
  · intro other member
    rw [skip]
    rcases List.mem_cons.1 member with rfl | inside
    · rw [← loads.own]
      refine ownedNumbers_congr fun offset behind before => ?_
      constructor
      · intro holds inner innerMember
        have bounds := loads.bounds inner innerMember
        exact holds.2 inner (List.mem_cons_of_mem _ innerMember) (by omega)
      · intro free
        refine ⟨covers offset behind before, ?_⟩
        intro inner innerMember deeper
        rcases List.mem_cons.1 innerMember with rfl | later
        · omega
        · exact free inner later
    · rw [← loads.inner other inside]
      have around := loads.bounds other inside
      refine ownedNumbers_congr fun offset _ _ => ?_
      simp only [Body.Holds, List.forall_mem_cons]
      exact ⟨fun holds => ⟨holds.1, holds.2.2⟩, fun holds => ⟨holds.1, fun deeper => by omega,
        holds.2⟩⟩
  · intro other member
    rw [piecesSize_cons, jumpSize]
    rcases List.mem_cons.1 member with rfl | inside
    · omega
    · have bounds := loads.bounds other inside
      omega

end Loads

section Statements

variable {functions : Functions} {place : Surroundings} {text : ScopeText}

/-- The scopes around a statement serve its text and the bodies in it. -/
structure Supplied (functions : Functions) (place : Surroundings) (text : ScopeText)
    (nodes : List Node) (bodies : List Body) : Prop where
  serves : place.scope.Serves functions place.natives text.params text.body
  within : ∀ occurrence ∈ Node.occurrencesAll false nodes, occurrence ∈ text.nodes
  inner : ∀ body ∈ bodies, (innerScope functions place.scopes body.definition.name).Serves functions
    place.natives body.definition.params body.definition.body

/-- The code of a statement loads the numbers that the statement is written with. -/
def StatementLoads (functions : Functions) (place : Surroundings) (text : ScopeText)
    (node : Node) : Prop :=
  ∀ start, Supplied functions place text [node] (statementBodies place.drops start node) →
    Loads functions place.scopes place.scope text start
      (assembleStatement functions place start node) (statementBodies place.drops start node)
      (node.occurrences false)

theorem loads_statements {nodes : List Node} {inLoop inFunction : Bool}
    (shapes : ∀ node ∈ nodes, node.IsStatement Number.IsNumber inLoop inFunction)
    (loads : ∀ node ∈ nodes, StatementLoads functions place text node) {start : Nat}
    (supplied : Supplied functions place text nodes (statementsBodies place.drops start nodes)) :
    Loads functions place.scopes place.scope text start
      (assembleStatements functions place start nodes) (statementsBodies place.drops start nodes)
      (Node.occurrencesAll false nodes) := by
  induction nodes generalizing start with
  | nil => exact .quiet [] rfl start
  | cons node rest ih =>
      rcases List.forall_mem_cons.1 shapes with ⟨shape, restShapes⟩
      rcases List.forall_mem_cons.1 loads with ⟨nodeLoads, restLoads⟩
      rcases supplied with ⟨serves, within, inner⟩
      rw [statementsBodies, List.forall_mem_append] at inner
      rw [Node.occurrencesAll, List.forall_mem_append] at within
      have size := size_assembleStatement functions place shape start
      have first := nodeLoads start ⟨serves, by simpa [Node.occurrencesAll] using within.1, inner.1⟩
      exact first.append_at (by rw [size]) (ih restShapes restLoads ⟨serves, within.2, inner.2⟩)

/-- The code of an expression has no bodies in it. -/
theorem ExpressionLoads.loads {node : Node} (loads : ExpressionLoads functions place text node)
    (within : ∀ occurrence ∈ node.occurrences false, occurrence ∈ text.nodes) (start : Nat) :
    Loads functions place.scopes place.scope text start
      (plainPieces (assembleExpression functions place start node)) [] (node.occurrences false) :=
  .plain (loads start within) start

theorem loads_valued {node : Node} (valued : node.isValued)
    (loads : ExpressionLoads functions place text node) :
    StatementLoads functions place text node := by
  intro start supplied
  rw [statementBodies_of_valued place.drops start valued,
    assembleStatement_of_valued functions place start valued, plainPieces_append]
  have within : ∀ occurrence ∈ node.occurrences false, occurrence ∈ text.nodes := by
    simpa [Node.occurrencesAll] using supplied.within
  have drops : loadedNumbers place.scope.constants
      (if leavesValue node && place.drops then [.pop] else []) = [] := by
    split <;> rfl
  have whole := (loads.loads within start).append (.quiet _ drops _)
  rwa [List.append_nil, List.append_nil] at whole

theorem loads_assignment {position targetPosition : Position} {op : Op} {name : String}
    {value : Node} (valueShape : value.IsExpression Number.IsNumber) :
    StatementLoads functions place text
      (.assignment position (.symbol targetPosition name) op value) := by
  intro start supplied
  have serves := supplied.serves
  have within := supplied.within
  simp only [Node.occurrencesAll, Node.occurrences, List.append_nil, List.forall_mem_cons,
    List.forall_mem_append] at within
  have declared := (serves.answers within.1 rfl).assigned name rfl
  have load := number?_variable serves declared
  have loads := loads_expression serves valueShape
  have code : ∀ middle, loadedNumbers place.scope.constants
      (assembleExpression functions place middle value) = text.meant (value.occurrences false) :=
    fun middle => loads middle within.2.2
  simp only [assembleStatement, statementBodies, steppedAddress]
  apply Loads.plain
  rw [Node.occurrences, ScopeText.meant_cons rfl, Node.occurrences, List.singleton_append,
    ScopeText.meant_cons rfl, loadedNumbers_append]
  by_cases simple : op = .assign
  · rw [if_pos simple, code]
    exact List.append_nil _
  · rw [if_neg simple, loadedNumbers_cons load, loadedNumbers_append, code]
    exact (List.append_nil _).trans (List.append_nil _)

theorem loads_itemAssignment {position targetPosition : Position} {op : Op}
    {body key value : Node} (bodyShape : body.IsExpression Number.IsNumber)
    (keyShape : key.IsExpression Number.IsNumber) (valueShape : value.IsExpression Number.IsNumber) :
    StatementLoads functions place text
      (.assignment position (.index targetPosition body key) op value) := by
  intro start supplied
  have serves := supplied.serves
  have within := supplied.within
  simp only [Node.occurrencesAll, Node.occurrences, List.append_nil, List.forall_mem_cons,
    List.forall_mem_append] at within
  rcases within with ⟨_, ⟨_, bodyWithin, keyWithin⟩, valueWithin⟩
  have bodyCode := fun middle => loads_expression serves bodyShape middle bodyWithin
  have keyCode := fun middle => loads_expression serves keyShape middle keyWithin
  have valueCode := fun middle => loads_expression serves valueShape middle valueWithin
  simp only [assembleStatement, statementBodies]
  apply Loads.plain
  rw [Node.occurrences, ScopeText.meant_cons rfl, Node.occurrences, ScopeText.meant_append,
    ScopeText.meant_cons rfl, ScopeText.meant_append, loadedNumbers_append, loadedNumbers_append,
    loadedNumbers_append, bodyCode, keyCode, List.append_assoc]
  congr 2
  by_cases simple : op = .assign
  · rw [if_pos simple, valueCode]
    exact List.append_nil _
  · rw [if_neg simple, loadedNumbers_cons rfl, loadedNumbers_cons rfl, loadedNumbers_append,
      valueCode]
    exact (List.append_nil _).trans (List.append_nil _)

/-- The code of a condition loads the numbers of the condition; the jump behind it loads none. -/
theorem loads_condition {condition : Node}
    (serves : place.scope.Serves functions place.natives text.params text.body)
    (shape : condition.IsExpression Number.IsNumber)
    (within : ∀ occurrence ∈ condition.occurrences false, occurrence ∈ text.nodes)
    {start : Nat} (target : UInt16) {pieces : List Piece} {bodies : List Body} {nodes : List Node}
    (following : Loads functions place.scopes place.scope text
      (start + condition.expressionSize + 3) pieces bodies nodes) :
    Loads functions place.scopes place.scope text start
      (plainPieces (assembleExpression functions place start condition) ++
        .plain (.compare target) :: pieces) bodies (condition.occurrences false ++ nodes) := by
  have size := size_assembleExpression functions place shape start
  have test := (loads_expression serves shape).loads within start
  have skip : Loads functions place.scopes place.scope text (start + condition.expressionSize)
      [.plain (.compare target)] [] [] := .quiet [.compare target] rfl _
  exact test.append_at (by rw [size]) (skip.append_at rfl following)

theorem loads_branch {position bodyPosition : Position} {condition : Node} {body : List Node}
    {inLoop inFunction : Bool} (conditionShape : condition.IsExpression Number.IsNumber)
    (bodyShapes : ∀ item ∈ body, item.IsStatement Number.IsNumber inLoop inFunction)
    (bodyLoads : ∀ item ∈ body, StatementLoads functions place text item) :
    StatementLoads functions place text (.branch position condition bodyPosition body none) := by
  intro start supplied
  rcases supplied with ⟨serves, within, inner⟩
  simp only [Node.occurrencesAll, Node.occurrences, List.append_nil, List.forall_mem_cons,
    List.forall_mem_append] at within
  simp only [statementBodies, List.append_nil] at inner ⊢
  have code := loads_statements bodyShapes bodyLoads ⟨serves, within.2.2, inner⟩
  rw [assembleStatement, Node.occurrences, List.append_nil]
  exact (loads_condition serves conditionShape within.2.1 _ code).cons rfl

theorem loads_branchOther {position bodyPosition : Position} {condition other : Node}
    {body : List Node} {inLoop inFunction : Bool}
    (conditionShape : condition.IsExpression Number.IsNumber)
    (bodyShapes : ∀ item ∈ body, item.IsStatement Number.IsNumber inLoop inFunction)
    (bodyLoads : ∀ item ∈ body, StatementLoads functions place text item)
    (otherLoads : StatementLoads functions place text other) :
    StatementLoads functions place text
      (.branch position condition bodyPosition body (some other)) := by
  intro start supplied
  rcases supplied with ⟨serves, within, inner⟩
  simp only [Node.occurrencesAll, Node.occurrences, List.append_nil, List.forall_mem_cons,
    List.forall_mem_append] at within
  simp only [statementBodies, List.forall_mem_append] at inner ⊢
  have bodySize := size_assembleStatements functions place
    (fun item member => size_assembleStatement functions place (bodyShapes item member))
    (start + condition.expressionSize + 3)
  have code := loads_statements bodyShapes bodyLoads ⟨serves, within.2.2.1, inner.1⟩
  have alternative := otherLoads _
    ⟨serves, by simpa [Node.occurrencesAll] using within.2.2.2, inner.2⟩
  have skip : ∀ target : UInt16, Loads functions place.scopes place.scope text
      (start + condition.expressionSize + 3 + Node.statementsSize place.drops body)
      [.plain (.jump target)] [] [] := fun target => .quiet [.jump target] rfl _
  have rest := fun target =>
    code.append_at (by rw [bodySize]) ((skip target).append_at rfl alternative)
  rw [assembleStatement, Node.occurrences]
  exact (loads_condition serves conditionShape within.2.1 _ (rest _)).cons rfl

theorem loads_looping {body : List Node} {inFunction : Bool}
    (bodyShapes : ∀ item ∈ body, item.IsStatement Number.IsNumber true inFunction)
    (bodyLoads : ∀ item ∈ body, StatementLoads functions place.looping text item) {first : Nat}
    (supplied : Supplied functions place text body (statementsBodies true first body))
    (start stop : Nat) (back : UInt16) :
    Loads functions place.scopes place.scope text first
      ((assembleStatements functions place.looping first body).map
        (Piece.fill .continues start ∘ Piece.fill .breaks stop) ++ [.plain (.jump back)])
      (statementsBodies true first body) (Node.occurrencesAll false body) := by
  have code := @loads_statements functions place.looping text body true inFunction bodyShapes
    bodyLoads first
    ⟨supplied.serves, supplied.within, by rw [looping_drops]; exact supplied.inner⟩
  rw [looping_drops] at code
  have filled := (code.fill .breaks stop).fill .continues start
  rw [List.map_map] at filled
  have whole := filled.append (.quiet [.jump back] rfl _)
  rwa [List.append_nil, List.append_nil] at whole

/-- The code of every statement loads its numbers in their order. -/
theorem loads_statement {inLoop inFunction : Bool} {node : Node}
    (shape : node.IsStatement Number.IsNumber inLoop inFunction) (place : Surroundings)
    (text : ScopeText) : StatementLoads functions place text node := by
  induction shape generalizing place text with
  | value shape =>
      intro start supplied
      exact loads_valued shape.isValued (loads_expression supplied.serves shape) start supplied
  | call named argShapes =>
      intro start supplied
      exact loads_valued rfl (loads_call false named fun arg member =>
        loads_expression supplied.serves (argShapes arg member)) start supplied
  | stepBefore steps =>
      intro start supplied
      exact loads_valued rfl (loads_stepBefore false supplied.serves steps) start supplied
  | stepAfter steps =>
      intro start supplied
      exact loads_valued rfl (loads_stepAfter false supplied.serves) start supplied
  | assignment _ _ _ valueShape => exact loads_assignment valueShape
  | itemAssignment _ _ bodyShape keyShape valueShape =>
      exact loads_itemAssignment bodyShape keyShape valueShape
  | branch conditionShape bodyShapes bodyLoads =>
      exact loads_branch conditionShape bodyShapes
        fun item member => bodyLoads item member place text
  | @branchElse inLoop inFunction position bodyPosition otherPosition condition body other
      conditionShape bodyShapes otherShapes bodyLoads otherLoads =>
      refine loads_branchOther conditionShape bodyShapes
        (fun item member => bodyLoads item member place text) ?_
      intro start supplied
      have within := supplied.within
      simp only [Node.occurrencesAll, Node.occurrences, List.append_nil,
        List.forall_mem_cons] at within
      have code := loads_statements otherShapes
        (fun item member => otherLoads item member place text)
        ⟨supplied.serves, within.2, supplied.inner⟩
      rw [assembleStatement, Node.occurrences]
      exact code.cons rfl
  | branchChain conditionShape bodyShapes chained otherShape bodyLoads otherLoads =>
      exact loads_branchOther conditionShape bodyShapes
        (fun item member => bodyLoads item member place text) (otherLoads place text)
  | endlessLoop bodyShapes bodyLoads =>
      intro start supplied
      rcases supplied with ⟨serves, within, inner⟩
      simp only [Node.occurrencesAll, Node.occurrences, List.append_nil,
        List.forall_mem_cons] at within
      rw [assembleStatement, Node.occurrences]
      exact (loads_looping bodyShapes (fun item member => bodyLoads item member _ text)
        ⟨serves, within.2, inner⟩ _ _ _).cons rfl
  | whileLoop conditionShape bodyShapes bodyLoads =>
      intro start supplied
      rcases supplied with ⟨serves, within, inner⟩
      simp only [Node.occurrencesAll, Node.occurrences, List.append_nil, List.forall_mem_cons,
        List.forall_mem_append] at within
      rw [assembleStatement, Node.occurrences]
      exact (loads_condition serves conditionShape within.2.1 _
        (loads_looping bodyShapes (fun item member => bodyLoads item member _ text)
          ⟨serves, within.2.2, inner⟩ _ _ _)).cons rfl
  | breaks | continues =>
      intro start supplied
      refine ⟨?_, by simp [statementBodies], by simp [statementBodies]⟩
      simp [ownedNumbers, assembleStatement, placed_cons, Piece.number?, Node.occurrences,
        ScopeText.meant, Node.numbers, Node.number?]
  | returns valueShape =>
      intro start supplied
      have within := supplied.within
      simp only [Node.occurrencesAll, Node.occurrences, List.append_nil,
        List.forall_mem_cons] at within
      have loads := (loads_expression supplied.serves valueShape).loads within.2 start
      have whole := loads.append (.quiet [.return_] rfl _)
      rw [assembleStatement, Node.occurrences, plainPieces_append]
      rw [List.append_nil, List.append_nil] at whole
      exact whole.cons rfl
  | @function inLoop inFunction position bodyPosition name params body distinct bodyShapes ended
      bodyLoads =>
      intro start supplied
      have inner := supplied.inner
      rw [statementBodies, List.forall_mem_cons] at inner
      have size := size_assembleStatements functions (innerPlace functions place name)
        (fun item member => size_assembleStatement functions _ (bodyShapes item member)) (start + 3)
      have supplies : Supplied functions (innerPlace functions place name)
          ⟨name, params, bodyPosition, body⟩ body (statementsBodies true (start + 3) body) :=
        ⟨inner.1, fun occurrence member => member, inner.2⟩
      have code := loads_statements bodyShapes
        (fun item member => bodyLoads item member (innerPlace functions place name) _) supplies
      rw [assembleStatement, statementBodies, Node.occurrences]
      exact (Loads.function ⟨⟨position, name, params, bodyPosition, body⟩, _, _⟩ code rfl
        (by rw [size, innerPlace_drops]) _).cons rfl

end Statements

section Compiled

variable {natives : Resolver} {program : Program} {functions : Functions} {top : Scope}
  {rest : List Scope} {unit : Unit}

theorem Compiled.loads (shaped : program.IsShaped Number.IsNumber)
    (compiled : Compiled natives program functions top rest unit) :
    Loads functions (top :: rest).toArray top (topText program) 0
      (programPieces functions natives top rest program) (programBodies program)
      (topText program).nodes := by
  refine loads_statements shaped (fun item member => loads_statement (shaped item member)
    (topPlace natives top rest) (topText program)) ⟨compiled.topServes, fun _ inside => inside, ?_⟩
  intro body member
  have listed : body.definition ∈ definitions program := by
    rw [← programBodies_definitions shaped]
    exact List.mem_map_of_mem member
  rcases List.mem_iff_getElem?.1 listed with ⟨number, found⟩
  rcases innerPlace_serves top compiled.lists compiled.serves found with ⟨scope, _, same, serves⟩
  have inner : innerScope functions (topPlace natives top rest).scopes body.definition.name =
      scope := same
  rw [inner]
  exact serves

theorem placed_plainPieces (start : Nat) (code : List Instruction) :
    placed start (plainPieces code) =
      (located start code).map fun entry => (entry.1, .plain entry.2) := by
  induction code generalizing start with
  | nil => rfl
  | cons instruction rest ih =>
      rw [plainPieces_cons, placed_cons, located, List.map_cons, ih]
      rfl

/-- Linking leaves numbers as they are. -/
theorem number?_storageOf (linked : Functions) (index : Nat) (name : String) (arity : Nat)
    (scope : Scope) (instruction : Instruction) :
    instruction.number? (storageOf linked index name arity scope).constants =
      instruction.number? scope.constants := by
  have kept : ∀ datum : Datum, (linkConstant linked datum).number? = datum.number? := by
    intro datum
    cases datum with
    | function ref =>
        simp only [linkConstant]
        split <;> rfl
    | _ => rfl
  cases instruction with
  | load slot =>
      simp only [Instruction.number?, storageOf, Array.getElem?_map, Option.bind_map,
        Function.comp_def, kept]
  | _ => rfl

/-- What an owner loads is what pieces of code load at its offsets. -/
theorem Unit.loadedNumbers_eq {code : List Instruction} {owner : Option FunctionRef}
    {owns : Nat → Prop} {constants : Array Datum}
    (belongs : ∀ offset, unit.Belongs (located 0 code) owner offset ↔ owns offset)
    (reads : ∀ instruction : Instruction, ((unit.storageOf? owner).bind fun storage =>
      instruction.number? storage.constants) = instruction.number? constants) :
    unit.loadedNumbers (located 0 code) owner =
      ownedNumbers owns constants 0 (plainPieces code) := by
  rw [Unit.loadedNumbers, ownedNumbers, placed_plainPieces, List.filterMap_map]
  apply List.filterMap_congr
  rintro ⟨offset, instruction⟩ _
  simp only [Function.comp_apply, reads, Piece.number?]
  by_cases owned : owns offset
  · simp only [owned, (belongs offset).2 owned, if_true]
  · have apart : ¬unit.Belongs (located 0 code) owner offset := fun own =>
      owned ((belongs offset).1 own)
    simp only [owned, apart, if_false]

/-- What the numbers of a scope mean, in the order of the source. -/
def ScopeText.meanings (text : ScopeText) : List Float := text.meant text.nodes

theorem Compiled.loadedNumbers_top (shaped : program.IsShaped Number.IsNumber)
    (compiled : Compiled natives program functions top rest unit) {code : List Instruction}
    (pieces : programPieces functions natives top rest program = plainPieces code) :
    unit.loadedNumbers (located 0 code) none = (topText program).meanings := by
  have loads := (compiled.loads shaped).own
  rw [pieces] at loads
  rw [ScopeText.meanings, ← loads]
  refine Unit.loadedNumbers_eq (fun _ => compiled.belongs_none_iff shaped pieces) ?_
  intro instruction
  rw [Unit.storageOf?, compiled.storage_top, Option.bind_some, number?_storageOf]

theorem Compiled.loadedNumbers_inner (shaped : program.IsShaped Number.IsNumber)
    (compiled : Compiled natives program functions top rest unit) {code : List Instruction}
    (pieces : programPieces functions natives top rest program = plainPieces code) {number : Nat}
    {body : Body} (found : (programBodies program)[number]? = some body) :
    unit.loadedNumbers (located 0 code) (some (body.ref number)) =
      body.definition.text.meanings := by
  have loads := (compiled.loads shaped).inner body (List.mem_of_getElem? found)
  rw [pieces] at loads
  rw [ScopeText.meanings, ← loads]
  refine Unit.loadedNumbers_eq (fun _ => compiled.belongs_some_iff shaped pieces found) ?_
  intro instruction
  have listed := definition_of_body shaped found
  rcases innerPlace_serves top compiled.lists compiled.serves listed with
    ⟨scope, scopeFound, place, _⟩
  have index : (body.ref number).storage.toNat = number + 1 := by
    simp only [Body.ref, definitionRef]
    omega
  have same : innerScope functions (top :: rest).toArray body.definition.name = scope := place
  rw [same, Unit.storageOf?, index, compiled.storage_inner listed scopeFound, Option.bind_some,
    number?_storageOf]

end Compiled

end Lehce.Code
