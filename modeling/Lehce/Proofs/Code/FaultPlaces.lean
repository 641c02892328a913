import Lehce.Proofs.Code.Acceptance
import Lehce.Proofs.Program.StatementProgress

/-!
# Where the faults of compilation are

A program that cannot be compiled is refused at one of its own places: at the node or at the
body that has no meaning. Emission is followed action by action; what was emitted before does
not matter to where it fails.
-/

namespace Lehce.Code

variable {α β : Type} {proper : Position → Prop}

/-- Whether every fault of an emission is at a proper place. -/
def Tells (proper : Position → Prop) (action : Emit α) : Prop :=
  ∀ before fault left, action before = .error (.fault fault) left → proper fault.position

/-- An emission that always ends well has no fault to tell of. -/
theorem tells_of_ok {action : Emit α} (ends : ∀ before, ∃ value after, action before = .ok value after) :
    Tells proper action := by
  intro before fault left failed
  rcases ends before with ⟨value, after, ended⟩
  rw [ended] at failed
  cases failed

theorem tells_pure (result : α) : Tells proper (pure result : Emit α) :=
  tells_of_ok fun _ => ⟨_, _, rfl⟩

theorem tells_get : Tells proper (get : Emit Emission) := tells_of_ok fun _ => ⟨_, _, rfl⟩

theorem tells_modify (change : Emission → Emission) : Tells proper (modify change : Emit PUnit) :=
  tells_of_ok fun _ => ⟨_, _, rfl⟩

theorem tells_modifyGet (change : Emission → α × Emission) :
    Tells proper (modifyGet change : Emit α) :=
  tells_of_ok fun _ => ⟨_, _, rfl⟩

theorem tells_missing : Tells proper (throw .missingExpression : Emit α) := by
  rintro before fault left ⟨⟩

theorem tells_failAt {kind : Fault.Kind} {position : Position} (detail : String)
    (here : proper position) : Tells proper (failAt kind position detail : Emit α) := by
  rintro before fault left ⟨⟩
  exact here

theorem Tells.bind {action : Emit α} {next : α → Emit β} (first : Tells proper action)
    (second : ∀ value, Tells proper (next value)) : Tells proper (action >>= next) := by
  intro before fault left failed
  simp only [Bind.bind, EStateM.bind] at failed
  split at failed
  · rename_i value between _
    exact second value between fault left failed
  · rename_i error between stopped
    cases failed
    exact first before fault left stopped

theorem tells_emit (instruction : Instruction) : Tells proper (emit instruction) := by
  rw [emit_eq]
  exact tells_of_ok fun _ => ⟨_, _, rfl⟩

theorem tells_offset : Tells proper offset := tells_of_ok fun _ => ⟨_, _, rfl⟩

theorem tells_newLocation : Tells proper newLocation := tells_of_ok fun _ => ⟨_, _, rfl⟩

theorem tells_emitJump (jump : UInt16 → Instruction) (location : Nat) :
    Tells proper (emitJump jump location) := by
  rw [emitJump, emit_eq]
  exact tells_of_ok fun _ => ⟨_, _, rfl⟩

theorem tells_mark (location : Nat) : Tells proper (mark location) :=
  tells_of_ok fun _ => ⟨_, _, rfl⟩

theorem tells_emitArithmetic (op : Op) : Tells proper (emitArithmetic op) := by
  unfold emitArithmetic
  split <;> exact tells_of_ok fun _ => ⟨_, _, rfl⟩

section Slots

variable {place : Surroundings} {position : Position}

theorem tells_constantSlot (key : Option ConstantKey) (shown : String) (here : proper position) :
    Tells proper (constantSlot place position key shown) := by
  unfold constantSlot
  split
  · exact tells_pure _
  · exact tells_failAt _ here

theorem tells_loadConstant (value : Datum) (here : proper position) :
    Tells proper (loadConstant place position value) :=
  (tells_constantSlot _ _ here).bind fun _ => tells_emit _

theorem tells_functionSlot (name : String) (found : Option (ConstantKey × FunctionRef))
    (here : proper position) : Tells proper (functionSlot place position name found) := by
  unfold functionSlot
  split
  · exact tells_constantSlot _ _ here
  · exact tells_failAt _ here

theorem tells_symbolSlot (name : String) (here : proper position) :
    Tells proper (symbolSlot place position name) := by
  unfold symbolSlot
  split
  · exact tells_pure _
  · exact tells_get.bind fun _ => tells_functionSlot _ _ here

theorem tells_pathSlot (parts : List String) (here : proper position) :
    Tells proper (pathSlot place position parts) :=
  tells_functionSlot _ _ here

theorem tells_assignedSlot (name : String) (here : proper position) :
    Tells proper (assignedSlot place position name) := by
  unfold assignedSlot
  split
  · exact tells_pure _
  · exact tells_failAt _ here

theorem tells_steppedSlot {node : Node} (placed : node.IsPlaced proper) :
    Tells proper (steppedSlot place node) := by
  unfold steppedSlot
  split
  · exact tells_assignedSlot _ placed.here
  · exact tells_failAt _ placed.here

theorem tells_calleeSlot {callee : Node} (count : Nat) (here : proper position)
    (placed : callee.IsPlaced proper) : Tells proper (calleeSlot place position count callee) := by
  unfold calleeSlot
  split
  · rename_i calleePosition name
    have slot : Tells proper (symbolSlot place calleePosition name) :=
      tells_symbolSlot name placed.here
    simp only
    split
    · refine tells_get.bind fun emission => ?_
      split
      · split
        · exact (tells_failAt _ here).bind fun _ => slot
        · exact slot
      · exact slot
    · exact slot
  · exact tells_pathSlot _ placed.here
  · exact tells_failAt _ placed.here

end Slots

section Expressions

theorem tells_withLoop (start stop : Nat) {body : Emit PUnit} (inner : Tells proper body) :
    Tells proper (withLoop start stop body) := by
  unfold withLoop
  refine (tells_modifyGet _).bind fun outer => inner.bind fun _ => ?_
  exact (tells_emit _).bind fun _ => (tells_mark _).bind fun _ => tells_offset.bind fun _ =>
    tells_modify _

theorem tells_emitLeave {place : Surroundings} {position : Position}
    (leave : Int → Emission → Emission) (here : proper position) :
    Tells proper (emitLeave place position leave) := by
  have leaves : Tells proper (do
      let location ← newLocation
      modify (leave location)
      emitJump .jump location) :=
    tells_newLocation.bind fun _ => (tells_modify _).bind fun _ => tells_emitJump _ _
  unfold emitLeave
  simp only
  split
  · exact (tells_failAt _ here).bind fun _ => leaves
  · exact leaves

mutual

/-- The fault of an expression is at one of its nodes. -/
theorem tells_expression (place : Surroundings) (node : Node) (placed : node.IsPlaced proper) :
    Tells proper (emitExpression place node) := by
  rcases Node.isPlaced_iff.1 placed with ⟨-, below⟩
  have here := placed.here
  cases node with
  | literal position value =>
      rw [emitExpression]
      exact tells_loadConstant _ here
  | nothing position =>
      rw [emitExpression]
      exact tells_loadConstant _ here
  | symbol position name =>
      rw [emitExpression]
      exact (tells_symbolSlot _ here).bind fun _ => tells_emit _
  | path position parts =>
      rw [emitExpression]
      exact (tells_pathSlot _ here).bind fun _ => tells_emit _
  | binary position left op right =>
      have first := tells_expression place left (below left (by simp [Node.children, Node.parts]))
      have second := tells_expression place right
        (below right (by simp [Node.children, Node.parts]))
      rw [emitExpression]
      split
      · exact tells_failAt _ here
      · exact first.bind fun _ => second.bind fun _ => tells_emit _
  | control position left op right =>
      have first := tells_expression place left (below left (by simp [Node.children, Node.parts]))
      have second := tells_expression place right
        (below right (by simp [Node.children, Node.parts]))
      have deciding : Tells proper (do
          let stop ← newLocation
          emit .dup
          if op = .or then emit (.unary .not)
          emitJump .compare stop
          emit .pop
          emitExpression place right
          mark stop) := by
        refine tells_newLocation.bind fun stop => ?_
        refine (tells_emit .dup).bind fun _ => ?_
        have jump : Tells proper (do
            emitJump .compare stop
            emit .pop
            emitExpression place right
            mark stop) :=
          (tells_emitJump _ _).bind fun _ => (tells_emit _).bind fun _ => second.bind fun _ =>
            tells_mark _
        simp only
        split
        · exact (tells_emit _).bind fun _ => jump
        · exact jump
      rw [emitExpression]
      split
      · exact first.bind fun _ => second.bind fun _ => tells_emit _
      · simp only
        split
        · exact (tells_failAt _ here).bind fun _ => first.bind fun _ => deciding
        · exact first.bind fun _ => deciding
  | call position callee args used =>
      have arguments := tells_expressions place args
        fun arg member => below arg (by simp [Node.children, Node.parts, member])
      rw [emitExpression]
      refine (tells_calleeSlot _ here
        (below callee (by simp [Node.children, Node.parts]))).bind fun slot => ?_
      simp only
      split
      · exact (tells_failAt _ here).bind fun _ => arguments.bind fun _ => tells_emit _
      · exact arguments.bind fun _ => tells_emit _
  | list position items =>
      rw [emitExpression]
      refine (tells_expressions place items below).bind fun _ => ?_
      simp only
      split
      · exact (tells_failAt _ here).bind fun _ => tells_emit _
      · exact tells_emit _
  | dict position entries =>
      rw [emitExpression]
      refine (tells_entries place entries here fun entry member =>
        below entry.2 (List.mem_map_of_mem member)).bind fun _ => ?_
      simp only
      split
      · exact (tells_failAt _ here).bind fun _ => tells_emit _
      · exact tells_emit _
  | prefixed position op operand used =>
      have operandPlaced := below operand (by simp [Node.children, Node.parts])
      have operandTells := tells_expression place operand operandPlaced
      cases op with
      | increment | decrement =>
          rw [emitExpression]
          exact (tells_steppedSlot operandPlaced).bind fun _ => (tells_emit _).bind fun _ =>
            (tells_emit _).bind fun _ => tells_emit _
      | not | negate =>
          rw [emitExpression]
          exact operandTells.bind fun _ => tells_emit _
      | plus =>
          rw [emitExpression]
          exact operandTells
      | _ =>
          rw [emitExpression]
          · exact tells_failAt _ here
          all_goals simp
  | suffixed position op operand used =>
      have operandPlaced := below operand (by simp [Node.children, Node.parts])
      rw [emitExpression]
      refine (tells_steppedSlot operandPlaced).bind fun slot => (tells_emit _).bind fun _ => ?_
      simp only
      split
      · exact (tells_emit _).bind fun _ => (tells_emit _).bind fun _ => tells_emit _
      · exact (tells_emit _).bind fun _ => tells_emit _
  | index position body key =>
      have first := tells_expression place body (below body (by simp [Node.children, Node.parts]))
      have second := tells_expression place key (below key (by simp [Node.children, Node.parts]))
      rw [emitExpression]
      exact first.bind fun _ => second.bind fun _ => tells_emit _
  | assignment | block | function | branch | returns | breaks | continues | endlessLoop
  | whileLoop =>
      rw [emitExpression]
      · exact tells_failAt _ here
      all_goals simp

theorem tells_expressions (place : Surroundings) (nodes : List Node)
    (placed : ∀ node ∈ nodes, node.IsPlaced proper) : Tells proper (emitExpressions place nodes) := by
  cases nodes with
  | nil =>
      rw [emitExpressions]
      exact tells_pure _
  | cons node rest =>
      rw [emitExpressions]
      rcases List.forall_mem_cons.1 placed with ⟨first, others⟩
      exact (tells_expression place node first).bind fun _ => tells_expressions place rest others

theorem tells_entries (place : Surroundings) {position : Position} (entries : List (String × Node))
    (here : proper position) (placed : ∀ entry ∈ entries, entry.2.IsPlaced proper) :
    Tells proper (emitEntries place position entries) := by
  match entries with
  | [] =>
      rw [emitEntries]
      exact tells_pure _
  | (key, value) :: rest =>
      rw [emitEntries]
      rcases List.forall_mem_cons.1 placed with ⟨first, others⟩
      exact (tells_loadConstant _ here).bind fun _ =>
        (tells_expression place value first).bind fun _ => tells_entries place rest here others

end

end Expressions

section Statements

mutual

/-- The fault of a statement is at one of its nodes or at the body of one. -/
theorem tells_statement (place : Surroundings) (node : Node) (placed : node.IsPlaced proper) :
    Tells proper (emitStatement place node) := by
  rcases Node.isPlaced_iff.1 placed with ⟨-, below⟩
  have here := placed.here
  have expression : Tells proper (do
      emitExpression place node
      if leavesValue node && (place.inFunction || place.inLoop) then emit .pop) := by
    refine (tells_expression place node placed).bind fun _ => ?_
    split
    · exact tells_emit _
    · exact tells_pure _
  cases node with
  | assignment position target op value =>
      have targetPlaced := below target (by simp [Node.children, Node.parts])
      have assigned := tells_expression place value
        (below value (by simp [Node.children, Node.parts]))
      have computed {store : Emit PUnit} (stored : Tells proper store) :=
        assigned.bind fun _ => (tells_emitArithmetic op).bind fun _ => stored
      cases target with
      | symbol targetPosition name =>
          rw [emitStatement]
          refine (tells_assignedSlot _ targetPlaced.here).bind fun slot => ?_
          simp only
          split
          · exact (tells_emit _).bind fun _ => computed (tells_emit _)
          · exact assigned.bind fun _ => tells_emit _
      | index indexPosition body key =>
          rcases Node.isPlaced_iff.1 targetPlaced with ⟨-, parts⟩
          rw [emitStatement]
          refine (tells_expression place body
            (parts body (by simp [Node.children, Node.parts]))).bind fun _ => ?_
          refine (tells_expression place key
            (parts key (by simp [Node.children, Node.parts]))).bind fun _ => ?_
          simp only
          split
          · exact (tells_emit _).bind fun _ => (tells_emit _).bind fun _ => computed (tells_emit _)
          · exact assigned.bind fun _ => tells_emit _
      | _ =>
          rw [emitStatement]
          · exact tells_failAt _ targetPlaced.here
          all_goals simp
  | branch position condition bodyPosition body otherwise =>
      have statements := tells_statements place body
        fun item member => below item (by simp [Node.children, Node.parts, member])
      rw [emitStatement]
      refine (tells_expression place condition
        (below condition (by simp [Node.children, Node.parts]))).bind fun _ => ?_
      refine tells_newLocation.bind fun _ => (tells_emitJump _ _).bind fun _ =>
        statements.bind fun _ => ?_
      cases otherwise with
      | none => exact tells_mark _
      | some other =>
          exact tells_newLocation.bind fun _ => (tells_emitJump _ _).bind fun _ =>
            (tells_mark _).bind fun _ =>
            (tells_statement place other (below other (by simp [Node.children, Node.parts]))).bind
            fun _ => tells_mark _
  | whileLoop position condition bodyPosition body =>
      rw [emitStatement]
      refine tells_offset.bind fun _ => tells_newLocation.bind fun _ => tells_withLoop _ _ ?_
      exact (tells_expression place condition
        (below condition (by simp [Node.children, Node.parts]))).bind fun _ =>
        (tells_emitJump _ _).bind fun _ => tells_statements _ body
          fun item member => below item (by simp [Node.children, Node.parts, member])
  | endlessLoop position bodyPosition body =>
      rw [emitStatement]
      exact tells_offset.bind fun _ => tells_newLocation.bind fun _ =>
        tells_withLoop _ _ (tells_statements _ body below)
  | breaks position =>
      rw [emitStatement]
      exact tells_emitLeave _ here
  | continues position =>
      rw [emitStatement]
      exact tells_emitLeave _ here
  | returns position value =>
      rw [emitStatement]
      simp only
      cases value with
      | none =>
          have missing : Tells proper (do
              (throw .missingExpression : Emit PUnit)
              emit .return_) := tells_missing.bind fun _ => tells_emit _
          split
          · exact (tells_failAt _ here).bind fun _ => missing
          · exact missing
      | some value =>
          have returned := (tells_expression place value
            (below value (by simp [Node.children, Node.parts]))).bind
            fun _ => tells_emit .return_
          split
          · exact (tells_failAt _ here).bind fun _ => returned
          · exact returned
  | function position name params bodyPosition body =>
      rw [emitStatement]
      refine tells_get.bind fun emission => ?_
      split
      · exact tells_failAt _ here
      · rename_i ref _
        refine tells_newLocation.bind fun _ => (tells_emitJump _ _).bind fun _ =>
          tells_offset.bind fun _ => (tells_modify _).bind fun _ =>
          (tells_statements _ body below).bind fun _ => ?_
        simp only
        split
        · exact (tells_loadConstant _ here).bind fun _ => (tells_emit _).bind fun _ => tells_mark _
        · exact tells_mark _
  | block position items =>
      rw [emitStatement]
      exact tells_statements place items below
  | _ =>
      rw [emitStatement]
      · exact expression
      all_goals simp

theorem tells_statements (place : Surroundings) (nodes : List Node)
    (placed : ∀ node ∈ nodes, node.IsPlaced proper) : Tells proper (emitStatements place nodes) := by
  cases nodes with
  | nil =>
      rw [emitStatements]
      exact tells_pure _
  | cons node rest =>
      rw [emitStatements]
      rcases List.forall_mem_cons.1 placed with ⟨first, others⟩
      exact (tells_statement place node first).bind fun _ => tells_statements place rest others

end

end Statements

section Programs

variable {natives : Resolver} {program : Program}

/-- All nodes that a walk over some nodes meets are placed when these are. -/
theorem isPlaced_of_mem {nodes : List Node} {node : Node}
    (placed : ∀ node ∈ nodes, node.IsPlaced proper)
    (member : node ∈ Node.occurrencesAll true nodes) : node.IsPlaced proper := by
  rcases Node.mem_occurrencesAll.1 member with ⟨item, itemMember, inside⟩
  refine Node.forall_occurrences ?_ item (placed item itemMember) node inside
  exact fun node placed => (Node.isPlaced_iff.1 placed).2

/-- A walk that stays in a scope meets no other nodes than one that enters functions. -/
theorem occurrences_subset {node occurrence : Node} (inside : occurrence ∈ node.occurrences false) :
    occurrence ∈ node.occurrences true := by
  rcases Node.mem_occurrences_iff.1 inside with rfl | ⟨part, isPart, inside⟩
  · exact Node.mem_occurrences_self true occurrence
  · have isChild : part ∈ node.children := by
      cases node with
      | function => simp [Node.parts] at isPart
      | _ => exact isPart
    have smaller := Node.sizeOf_child_lt isChild
    exact Node.mem_occurrences_children.2 (.inr ⟨part, isChild, occurrences_subset inside⟩)
termination_by sizeOf node

theorem isPlaced_of_mem_shallow {nodes : List Node} {node : Node}
    (placed : ∀ node ∈ nodes, node.IsPlaced proper)
    (member : node ∈ Node.occurrencesAll false nodes) : node.IsPlaced proper := by
  rcases Node.mem_occurrencesAll.1 member with ⟨item, itemMember, inside⟩
  exact isPlaced_of_mem placed
    (Node.mem_occurrencesAll.2 ⟨item, itemMember, occurrences_subset inside⟩)

theorem ScopeFault.isPlaced {functions : Functions} {name : String} {params : List String}
    {position : Position} {body : List Node} {fault : Fault} (here : proper position)
    (placed : ∀ node ∈ body, node.IsPlaced proper)
    (wrong : ScopeFault functions natives name params position body fault) :
    proper fault.position := by
  rcases wrong with ⟨node, member, rfl, -⟩ | ⟨rfl, -⟩
  · exact (isPlaced_of_mem_shallow placed member).here
  · exact here

/-- A definition is at the places of its function. -/
theorem Program.IsPlaced.definition (placed : program.IsPlaced proper) {definition : Definition}
    (member : definition ∈ definitions program) :
    proper definition.position ∧ proper definition.bodyPosition ∧
      ∀ node ∈ definition.body, node.IsPlaced proper := by
  rw [definitions_eq] at member
  rcases List.mem_filterMap.1 member with ⟨node, inside, defines⟩
  have nodePlaced := Node.isPlaced_iff.1 (isPlaced_of_mem placed.items inside)
  cases node with
  | function position name params bodyPosition body =>
      cases defines
      exact ⟨nodePlaced.1 position (by simp [Node.places]),
        nodePlaced.1 bodyPosition (by simp [Node.places]), nodePlaced.2⟩
  | _ => cases defines

/-- A program that was read is refused at one of its places. -/
theorem compile_faultPlaced (shaped : program.IsShaped Number.IsNumber)
    (placed : program.IsPlaced proper) {error : CompileError}
    (refused : compile natives program = .error error) :
    ∃ fault, error = .fault fault ∧ proper fault.position := by
  have spec := compile_spec natives shaped
  rw [refused] at spec
  rcases spec with ⟨fault, rfl, -⟩
  refine ⟨fault, rfl, ?_⟩
  have collected := collectFunctions_spec (definitions program)
  cases functionsEq : collectFunctions (definitions program) with
  | error other =>
      rw [functionsEq] at collected
      simp only [compile, functionsEq, Except.mapError, bind, Except.bind] at refused
      cases refused
      rcases collected with ⟨-, definition, member, rfl⟩
      exact (Program.IsPlaced.definition placed member).1
  | ok functions =>
      have built := collectScopes_spec functions natives program (definitions program)
        (keyed_nodes shaped)
        fun definition member => keyed_nodes (shaped_definitions shaped definition member).body
      cases scopesEq : collectScopes functions natives program (definitions program) with
      | error other =>
          rw [scopesEq] at built
          simp only [compile, functionsEq, Except.mapError, bind, Except.bind, scopesEq] at refused
          cases refused
          rcases built with wrong | ⟨definition, member, wrong⟩
          · exact ScopeFault.isPlaced placed.start placed.items wrong
          · rcases Program.IsPlaced.definition placed member with ⟨-, here, body⟩
            exact ScopeFault.isPlaced here body wrong
      | ok scopes =>
          rw [scopesEq] at built
          rcases built with ⟨top, rest, listed, -, -⟩
          have scopesList : scopes = (top :: rest).toArray := by rw [← listed]
          rw [scopesList] at scopesEq
          rw [compile_eq natives functionsEq scopesEq] at refused
          split at refused
          · unfold finish at refused
            split at refused
            · cases refused
              exact placed.start
            · split at refused
              · cases refused
                exact placed.start
              · cases refused
          · rename_i failed
            cases refused
            exact tells_statements _ program.items placed.items _ fault _ failed

end Programs

end Lehce.Code
