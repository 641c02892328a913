import Lehce.Proofs.Code.WellScoped

/-!
# Compilation

What compilation of a program comes to. `Compiled` collects what is known of the unit
when it succeeds: its code is the assembled one, its locations are settled, and its
functions and storages are those of the program's definitions and scopes. When it
fails, the fault tells of a condition that the program does not satisfy.
-/

namespace Lehce.Code

/-- Whether a piece is an instruction, or inside a loop a jump out of it. -/
def Piece.IsKnown (inLoop : Bool) : Piece → Prop
  | plain _ => True
  | leave _ => inLoop = true
  | hole _ => False

theorem known_plainPieces (inLoop : Bool) (instructions : List Instruction) :
    ∀ piece ∈ plainPieces instructions, piece.IsKnown inLoop := by
  simp [plainPieces, Piece.IsKnown]

theorem known_fill {pieces : List Piece} (known : ∀ piece ∈ pieces, piece.IsKnown true)
    (start stop : Nat) (inLoop : Bool) :
    ∀ piece ∈ pieces.map (Piece.fill .continues start ∘ Piece.fill .breaks stop),
      piece.IsKnown inLoop := by
  intro piece member
  rcases List.mem_map.1 member with ⟨earlier, earlierMember, rfl⟩
  cases earlier with
  | plain instruction => trivial
  | leave exit => cases exit <;> trivial
  | hole instruction => exact (known _ earlierMember).elim

section Known

variable {allowed : Float → Prop} (functions : Functions)

theorem known_assembleStatements {place : Surroundings} {nodes : List Node} {inLoop : Bool}
    (known : ∀ node ∈ nodes, ∀ start, ∀ piece ∈ assembleStatement functions place start node,
      piece.IsKnown inLoop) (start : Nat) :
    ∀ piece ∈ assembleStatements functions place start nodes, piece.IsKnown inLoop := by
  induction nodes generalizing start with
  | nil => simp [assembleStatements]
  | cons node rest ih =>
      rcases List.forall_mem_cons.1 known with ⟨first, others⟩
      simp only [assembleStatements, List.forall_mem_append]
      exact ⟨first start, ih others _⟩

/-- Only jumps out of a loop around a statement are not known when it is assembled. -/
theorem known_assembleStatement (place : Surroundings) {inLoop inFunction : Bool} {node : Node}
    (shape : node.IsStatement allowed inLoop inFunction) (start : Nat) :
    ∀ piece ∈ assembleStatement functions place start node, piece.IsKnown inLoop := by
  induction shape generalizing place start with
  | value shape lasting =>
      rw [assembleStatement_of_valued functions place start shape.isValued]
      exact known_plainPieces _ _
  | call | stepBefore | stepAfter =>
      rw [assembleStatement_of_valued functions place start rfl]
      exact known_plainPieces _ _
  | assignment | itemAssignment | returns =>
      simp only [assembleStatement]
      exact known_plainPieces _ _
  | branch conditionShape bodyShapes bodyKnown =>
      simp only [assembleStatement, List.forall_mem_append, List.forall_mem_cons]
      exact ⟨known_plainPieces _ _, trivial,
        known_assembleStatements functions (fun item member => bodyKnown item member place) _⟩
  | branchElse conditionShape bodyShapes otherShapes bodyKnown otherKnown =>
      simp only [assembleStatement, List.forall_mem_append, List.forall_mem_cons]
      exact ⟨known_plainPieces _ _, trivial,
        known_assembleStatements functions (fun item member => bodyKnown item member place) _,
        trivial,
        known_assembleStatements functions (fun item member => otherKnown item member place) _⟩
  | branchChain conditionShape bodyShapes chained otherShape bodyKnown otherKnown =>
      simp only [assembleStatement, List.forall_mem_append, List.forall_mem_cons]
      exact ⟨known_plainPieces _ _, trivial,
        known_assembleStatements functions (fun item member => bodyKnown item member place) _,
        trivial, otherKnown place _⟩
  | endlessLoop bodyShapes bodyKnown =>
      simp only [assembleStatement, List.forall_mem_append, List.forall_mem_singleton]
      exact ⟨known_fill (known_assembleStatements functions
        (fun item member => bodyKnown item member place.looping) _) _ _ _, trivial⟩
  | whileLoop conditionShape bodyShapes bodyKnown =>
      simp only [assembleStatement, List.forall_mem_append, List.forall_mem_cons]
      exact ⟨known_plainPieces _ _, trivial, known_fill (known_assembleStatements functions
        (fun item member => bodyKnown item member place.looping) _) _ _ _, trivial, by simp⟩
  | breaks | continues => simp [assembleStatement, Piece.IsKnown]
  | function distinct bodyShapes ended bodyKnown =>
      simp only [assembleStatement, List.forall_mem_cons]
      refine ⟨trivial, fun piece member => ?_⟩
      have known := known_assembleStatements functions
        (fun item member => bodyKnown item member _) _ piece member
      cases piece with
      | plain | hole => exact known
      | leave => cases known

end Known

/-- Pieces that are all known are instructions. -/
theorem eq_plainPieces_of_known {pieces : List Piece}
    (known : ∀ piece ∈ pieces, piece.IsKnown false) : ∃ code, pieces = plainPieces code := by
  induction pieces with
  | nil => exact ⟨[], rfl⟩
  | cons piece rest ih =>
      rcases List.forall_mem_cons.1 known with ⟨first, others⟩
      rcases ih others with ⟨code, rfl⟩
      cases piece with
      | plain instruction => exact ⟨instruction :: code, rfl⟩
      | leave => cases first
      | hole => exact first.elim

/-- What surrounds the top level. -/
def topPlace (natives : Resolver) (top : Scope) (rest : List Scope) : Surroundings :=
  { natives, scopes := (top :: rest).toArray, scope := top }

/-- The bodies of all functions of a program. -/
def programBodies (program : Program) : List Body := statementsBodies false 0 program.items

/-- The pieces of a program. -/
def programPieces (functions : Functions) (natives : Resolver) (top : Scope) (rest : List Scope)
    (program : Program) : List Piece :=
  assembleStatements functions (topPlace natives top rest) 0 program.items

/-- The names and numbers of parameters of a program's storages. -/
def storageNames (program : Program) : List (String × Nat) :=
  ("", 0) :: (definitions program).map fun definition =>
    (definition.name, definition.params.length)

/-- What is known of a unit that a program was compiled to. -/
structure Compiled (natives : Resolver) (program : Program) (functions : Functions) (top : Scope)
    (rest : List Scope) (unit : Unit) : Prop where
  lists : functions.Lists (definitions program)
  topServes : top.Serves functions natives [] program.items
  serves : ServesAll functions natives (definitions program) rest
  fits : BodyFits functions (topPlace natives top rest) program.items (programBodies program)
  code : unit.opcodes.toList = piecesBytes (programPieces functions natives top rest program)
  size : unit.opcodes.size = program.codeSize
  small : program.codeSize ≤ maxOperand
  settled : ∀ location ∈ unit.locations,
    Settled 0 (programPieces functions natives top rest program) location
  functions_eq : unit.functions = (functions.setEntries (programBodies program)).refs.toList
  storages_eq : unit.storages.toList = ((storageNames program).zip (top :: rest)).zipIdx.map
    fun entry => storageOf (functions.setEntries (programBodies program)) entry.2 entry.1.1.1
      entry.1.1.2 entry.1.2

section Compile

variable {natives : Resolver} {program : Program}

/-- The variables of a scope that serves a text are those of the text. -/
theorem Scope.Serves.binds_eq {functions : Functions} {scope : Scope} (text : ScopeText)
    (serves : scope.Serves functions natives text.params text.body) :
    scope.binds = text.binds := by
  funext name
  rw [Bool.eq_iff_iff, Scope.binds, serves.holdsVariables.slot_isSome_iff, ScopeText.binds,
    isVariable, List.contains_iff_mem]

/-- A scope that serves a text is ready for its statements. -/
theorem ready_of_serves {functions : Functions} {blamed : Fault → Prop} {place : Surroundings}
    (text : ScopeText) (serves : place.scope.Serves functions place.natives text.params text.body)
    (keyed : ∀ node ∈ text.nodes, isKeyed node)
    (blames : ∀ node ∈ text.nodes, ∀ kind, callMisfit? functions text.binds node = some kind →
      ∀ position detail, blamed (.detailed kind position detail)) :
    ∀ item ∈ text.body, Ready functions blamed place item := by
  intro item member
  have below : ∀ occurrence ∈ item.occurrences false, occurrence ∈ text.nodes :=
    fun occurrence inside => Node.mem_occurrencesAll.2 ⟨item, member, inside⟩
  refine ⟨fun occurrence inside => ?_, fun occurrence inside kind misfit => ?_⟩
  · exact serves.answers (below occurrence inside) (keyed occurrence (below occurrence inside))
  · rw [serves.binds_eq text] at misfit
    exact blames occurrence (below occurrence inside) kind misfit

theorem keyed_nodes {body : List Node} {inLoop inFunction : Bool}
    (shapes : ∀ item ∈ body,
      item.IsStatement Number.IsNumber inLoop inFunction) :
    ∀ node ∈ Node.occurrencesAll false body, isKeyed node := by
  intro node member
  rcases Node.mem_occurrencesAll.1 member with ⟨item, itemMember, inside⟩
  exact isKeyed_of_statement (shapes item itemMember) node inside

theorem programBodies_definitions {allowed : Float → Prop} (shaped : program.IsShaped allowed) :
    (programBodies program).map (·.definition) = definitions program := by
  rw [programBodies, definitions_eq]
  exact map_definition_statementsBodies
    (fun node member => map_definition_statementBodies (shaped node member) false) 0

theorem shaped_definitions {allowed : Float → Prop} (shaped : program.IsShaped allowed) :
    ∀ definition ∈ definitions program, definition.IsShaped allowed := by
  intro definition member
  rw [← programBodies_definitions shaped] at member
  rcases List.mem_map.1 member with ⟨body, bodyMember, rfl⟩
  exact isShaped_statementsBodies
    (fun node nodeMember => isShaped_statementBodies (shaped node nodeMember) false) 0 body
    bodyMember

/-- A scope that serves a definition surrounds its body. -/
theorem innerPlace_serves (top : Scope) {functions : Functions} {rest : List Scope}
    (lists : functions.Lists (definitions program))
    (serves : ServesAll functions natives (definitions program) rest) {number : Nat}
    {definition : Definition} (listed : (definitions program)[number]? = some definition) :
    ∃ scope, rest[number]? = some scope ∧
      (innerPlace functions (topPlace natives top rest) definition.name).scope = scope ∧
      scope.Serves functions natives definition.params definition.body := by
  rcases List.getElem?_eq_some_iff.1 listed with ⟨inside, definitionEq⟩
  have sameLength := serves.length_eq
  have found : rest[number]? = some rest[number] := List.getElem?_eq_getElem (by omega)
  have served := (List.forall₂_iff_get.1 serves).2 number inside (by omega)
  simp only [List.get_eq_getElem, definitionEq] at served
  have storage : (definitionRef number definition).storage.toNat = number + 1 := by
    simp only [definitionRef]
    omega
  refine ⟨_, found, ?_, served⟩
  simp [innerPlace, lists.find? listed, topPlace, storage, found]

theorem ScopeFault.violates {functions : Functions}
    (lists : functions.Lists (definitions program)) {text : ScopeText}
    (scope : text ∈ scopeTexts program) {fault : Fault}
    (wrong : ScopeFault functions natives text.name text.params text.position text.body fault) :
    Violates natives program fault := by
  rcases wrong with ⟨node, member, rfl, unresolved⟩ | ⟨rfl, many⟩
  · refine .known scope member fun known => unresolved ?_
    exact (isResolved_iff lists node).2 known
  · rw [slotCount_eq lists] at many
    exact .slots scope many

/-- Whatever emission is blamed for is a condition that the program does not satisfy. -/
theorem blames_misfit {functions : Functions} (lists : functions.Lists (definitions program))
    {text : ScopeText} (scope : text ∈ scopeTexts program) {node : Node}
    (member : node ∈ text.nodes) {kind : Fault.Kind}
    (misfit : callMisfit? functions text.binds node = some kind) (position : Position)
    (detail : String) : Violates natives program (.detailed kind position detail) := by
  rcases callMisfit?_eq_some lists misfit with ⟨rfl, differs⟩ | ⟨rfl, many⟩
  · exact .arity scope member differs position detail
  · exact .few scope member many position detail

theorem mem_scopeTexts {definition : Definition} (member : definition ∈ definitions program) :
    definition.text ∈ scopeTexts program :=
  List.mem_cons_of_mem _ (List.mem_map_of_mem member)

/-- The scopes of a program are ready for all its statements. -/
theorem ready_program (shaped : program.IsShaped Number.IsNumber)
    {functions : Functions} {top : Scope} {rest : List Scope}
    (lists : functions.Lists (definitions program))
    (topServes : top.Serves functions natives [] program.items)
    (serves : ServesAll functions natives (definitions program) rest) :
    BodyReady functions (Violates natives program) (topPlace natives top rest) program.items
      (programBodies program) := by
  have listed : ∀ body ∈ programBodies program, body.definition ∈ definitions program := by
    intro body member
    rw [← programBodies_definitions shaped]
    exact List.mem_map_of_mem member
  refine ⟨?_, ?_, ?_⟩
  · exact ready_of_serves (topText program) topServes (keyed_nodes shaped)
      fun node member kind misfit =>
        blames_misfit lists List.mem_cons_self member misfit
  · intro body member
    rcases List.mem_iff_getElem?.1 (listed body member) with ⟨number, found⟩
    exact ⟨_, lists.find? found⟩
  · intro body member
    rcases List.mem_iff_getElem?.1 (listed body member) with ⟨number, found⟩
    rcases innerPlace_serves top lists serves found with ⟨scope, _, place, served⟩
    refine ready_of_serves body.definition.text ?_
      (keyed_nodes (shaped_definitions shaped _ (listed body member)).body)
      fun node nodeMember kind misfit =>
        blames_misfit lists (mem_scopeTexts (listed body member)) nodeMember misfit
    rw [place]
    exact served

/-- Emission of a whole program. -/
theorem emits_program (shaped : program.IsShaped Number.IsNumber)
    {functions : Functions} {top : Scope} {rest : List Scope}
    (lists : functions.Lists (definitions program))
    (topServes : top.Serves functions natives [] program.items)
    (serves : ServesAll functions natives (definitions program) rest) :
    Emits (Violates natives program) (emitStatements (topPlace natives top rest) program.items)
      { functions } fun _ after =>
        (∃ numbers, Extends { functions } (programPieces functions natives top rest program)
          (programBodies program) numbers [] after) ∧
        BodyFits functions (topPlace natives top rest) program.items (programBodies program) := by
  have agrees : (Emission.functions { functions }).Agrees functions := fun name => rfl
  refine emits_statements shaped
    (fun item member => emits_statement (shaped item member) _ rfl rfl) agrees ?_
    (ready_program shaped lists topServes serves)
  intro large position detail told
  refine .size ?_ position ?_
  · simpa [Program.codeSize, topPlace, Surroundings.drops, maxOperand] using large
  · simp only [List.mem_cons, List.not_mem_nil, or_false] at told ⊢
    rcases told with rfl | rfl
    · exact .inl rfl
    · exact .inr (.inl rfl)

/-- All pieces of a program are known. -/
theorem pieces_program (shaped : program.IsShaped Number.IsNumber) (functions : Functions)
    (natives : Resolver) (top : Scope) (rest : List Scope) :
    ∃ code, programPieces functions natives top rest program = plainPieces code :=
  eq_plainPieces_of_known (known_assembleStatements functions
    (fun item member => known_assembleStatement functions _ (shaped item member)) 0)

theorem noExits_program (shaped : program.IsShaped Number.IsNumber)
    {functions : Functions} {top : Scope} {rest : List Scope} {numbers : Exit → List Nat}
    {after : Emission}
    (extension : Extends { functions } (programPieces functions natives top rest program)
      (programBodies program) numbers [] after) (exit : Exit) : numbers exit = [] := by
  rcases pieces_program shaped functions natives top rest with ⟨code, codeEq⟩
  have waits := extension.waits exit
  rw [codeEq, exitSites_plainPieces] at waits
  exact List.forall₂_nil_right_iff.1 waits

theorem size_program (shaped : program.IsShaped Number.IsNumber)
    (functions : Functions) (natives : Resolver) (top : Scope) (rest : List Scope) :
    piecesSize (programPieces functions natives top rest program) = program.codeSize :=
  size_assembleStatements functions (topPlace natives top rest)
    (fun item member => size_assembleStatement functions _ (shaped item member)) 0

/-- What is made of the emission of a whole program. -/
def finish (program : Program) (scopes : List Scope) (emission : Emission) :
    Except CompileError Unit :=
  if maxOperand < emission.draft.code.size then
    .error (.fault (.detailed .syntaxError program.position "program too large"))
  else if !emission.draft.unresolved.isEmpty then
    .error (.fault (.detailed .invalidJumpTarget program.position
      (toString emission.draft.unresolved.length ++ " unresolved locations")))
  else .ok {
    opcodes := emission.draft.code
    storages := (((storageNames program).zip scopes).zipIdx.map fun entry =>
      storageOf emission.functions entry.2 entry.1.1.1 entry.1.1.2 entry.1.2).toArray
    functions := emission.functions.refs.toList
    locations := emission.draft.locations }

theorem compile_eq (natives : Resolver) {functions : Functions} {top : Scope} {rest : List Scope}
    (collected : collectFunctions (definitions program) = .ok functions)
    (built : collectScopes functions natives program (definitions program) =
      .ok (top :: rest).toArray) :
    compile natives program =
      match emitStatements (topPlace natives top rest) program.items { functions } with
      | .ok _ ended => finish program (top :: rest) ended
      | .error error _ => .error error := by
  have placeEq : Surroundings.mk natives (top :: rest).toArray
      ((top :: rest).toArray[0]?.getD {}) false false = topPlace natives top rest := by
    simp [topPlace]
  unfold compile
  simp only [collected, built, Except.mapError, bind, Except.bind, placeEq, emitted]
  cases emitStatements (topPlace natives top rest) program.items { functions } with
  | error error left => rfl
  | ok result ended =>
      simp only [finish]
      by_cases large : maxOperand < ended.draft.code.size
      · simp only [large, if_true]
        rfl
      · simp only [large, if_false]
        split
        · rfl
        · rfl

/-- Settled locations are not reported as unresolved. -/
theorem unresolved_eq_nil {draft : Draft} {pieces : List Piece}
    (settled : ∀ location ∈ draft.locations, Settled 0 pieces location) :
    draft.unresolved = [] := by
  rw [Draft.unresolved, List.filter_eq_nil_iff]
  intro number member
  have inside : number < draft.locations.size := List.mem_range.1 member
  have resolved := (settled draft.locations[number] (Array.getElem_mem inside)).resolved
  simp [Array.getElem?_eq_getElem inside, resolved]

/-- The emission of a whole program makes a unit, unless the code is too large. -/
theorem finish_spec (shaped : program.IsShaped Number.IsNumber)
    {functions : Functions} {top : Scope} {rest : List Scope} {after : Emission}
    {numbers : Exit → List Nat} (lists : functions.Lists (definitions program))
    (topServes : top.Serves functions natives [] program.items)
    (serves : ServesAll functions natives (definitions program) rest)
    (extension : Extends { functions } (programPieces functions natives top rest program)
      (programBodies program) numbers [] after)
    (fits : BodyFits functions (topPlace natives top rest) program.items
      (programBodies program)) :
    match finish program (top :: rest) after with
    | .ok unit => Compiled natives program functions top rest unit
    | .error error => ∃ fault, error = .fault fault ∧ Violates natives program fault := by
  have size : after.draft.code.size = program.codeSize := by
    rw [extension.size_eq, size_program shaped]
    simp
  have settled : ∀ location ∈ after.draft.locations,
      Settled 0 (programPieces functions natives top rest program) location := by
    intro location member
    rcases Array.mem_iff_getElem?.1 member with ⟨number, found⟩
    rcases extension.settled number location (Nat.zero_le _) found with
      ⟨exit, waiting⟩ | pending | settled
    · rw [noExits_program shaped extension exit] at waiting
      cases waiting
    · cases pending
    · exact settled
  unfold finish
  by_cases large : maxOperand < after.draft.code.size
  · simp only [large, if_true]
    rw [size] at large
    exact ⟨_, rfl, .size large program.position (by simp)⟩
  · simp only [large, if_false, unresolved_eq_nil settled, List.isEmpty_nil, Bool.not_true,
      Bool.false_eq_true]
    rw [size] at large
    refine ⟨lists, topServes, serves, fits, ?_, size, by omega, settled, ?_, ?_⟩
    · simpa using extension.code
    · rw [extension.functions]
    · simp only [extension.functions]

/-- Compilation succeeds, or its fault tells of a condition that the program violates. -/
theorem compile_spec (natives : Resolver)
    (shaped : program.IsShaped Number.IsNumber) :
    match compile natives program with
    | .ok unit => ∃ functions top rest, Compiled natives program functions top rest unit
    | .error error => ∃ fault, error = .fault fault ∧ Violates natives program fault := by
  have collected := collectFunctions_spec (definitions program)
  cases functionsEq : collectFunctions (definitions program) with
  | error fault =>
      rw [functionsEq] at collected
      rcases collected with ⟨repeated, definition, member, rfl⟩
      simp only [compile, functionsEq, Except.mapError]
      exact ⟨_, rfl, .distinct member repeated⟩
  | ok functions =>
      rw [functionsEq] at collected
      rcases collected with ⟨lists, distinct⟩
      have built := collectScopes_spec functions natives program (definitions program)
        (keyed_nodes shaped)
        fun definition member => keyed_nodes (shaped_definitions shaped definition member).body
      cases scopesEq : collectScopes functions natives program (definitions program) with
      | error fault =>
          rw [scopesEq] at built
          simp only [compile, functionsEq, Except.mapError, bind, Except.bind, scopesEq]
          rcases built with wrong | ⟨definition, member, wrong⟩
          · exact ⟨fault, rfl, ScopeFault.violates lists List.mem_cons_self wrong⟩
          · exact ⟨fault, rfl, ScopeFault.violates lists (mem_scopeTexts member) wrong⟩
      | ok scopes =>
          rw [scopesEq] at built
          rcases built with ⟨top, rest, listed, topServes, serves⟩
          have scopesList : scopes = (top :: rest).toArray := by rw [← listed]
          rw [scopesList] at scopesEq
          rw [compile_eq natives functionsEq scopesEq]
          have emits := emits_program shaped lists topServes serves
          unfold Emits at emits
          cases ended : emitStatements (topPlace natives top rest) program.items { functions } with
          | error error left =>
              rw [ended] at emits
              cases error with
              | fault fault => exact ⟨fault, rfl, emits⟩
              | missingExpression => exact emits.elim
          | ok result ended =>
              rw [ended] at emits
              rcases emits with ⟨⟨numbers, extension⟩, fits⟩
              have finished := finish_spec shaped lists topServes serves extension fits
              simp only
              split at finished
              · exact ⟨functions, top, rest, finished⟩
              · exact finished

section Contents

variable {functions : Functions} {top : Scope} {rest : List Scope} {unit : Unit}

theorem Compiled.storage_top (compiled : Compiled natives program functions top rest unit) :
    unit.storages[0]? =
      some (storageOf (functions.setEntries (programBodies program)) 0 "" 0 top) := by
  rw [← Array.getElem?_toList, compiled.storages_eq]
  simp [storageNames]

theorem Compiled.storage_inner (compiled : Compiled natives program functions top rest unit)
    {number : Nat} {definition : Definition} {scope : Scope}
    (listed : (definitions program)[number]? = some definition)
    (found : rest[number]? = some scope) :
    unit.storages[number + 1]? =
      some (storageOf (functions.setEntries (programBodies program)) (number + 1)
        definition.name definition.params.length scope) := by
  have entry : ((storageNames program).zip (top :: rest))[number + 1]? =
      some ((definition.name, definition.params.length), scope) := by
    rw [List.getElem?_zip_eq_some]
    simp [storageNames, listed, found]
  rw [← Array.getElem?_toList, compiled.storages_eq, List.getElem?_map, List.getElem?_zipIdx, entry]
  simp

theorem Compiled.lists_bodies (shaped : program.IsShaped Number.IsNumber)
    (compiled : Compiled natives program functions top rest unit) :
    functions.Lists ((programBodies program).map (·.definition)) := by
  rw [programBodies_definitions shaped]
  exact compiled.lists

theorem definition_of_body {allowed : Float → Prop} (shaped : program.IsShaped allowed)
    {number : Nat} {body : Body} (found : (programBodies program)[number]? = some body) :
    (definitions program)[number]? = some body.definition := by
  rw [← programBodies_definitions shaped, List.getElem?_map, found]
  rfl

/-- The functions of a compiled program are those of its bodies. -/
theorem Compiled.mem_functions_iff (shaped : program.IsShaped Number.IsNumber)
    (compiled : Compiled natives program functions top rest unit) {ref : FunctionRef} :
    ref ∈ unit.functions ↔ ∃ (number : Nat) (body : Body),
      (programBodies program)[number]? = some body ∧ ref = body.ref number := by
  rw [compiled.functions_eq]
  constructor
  · exact (compiled.lists_bodies shaped).mem_refs_setEntries
  · rintro ⟨number, body, found, rfl⟩
    have listed := (compiled.lists_bodies shaped).refs_setEntries found
    rw [← Array.getElem?_toList] at listed
    exact List.mem_of_getElem? listed

/-- Without definitions there are no functions. -/
theorem Compiled.functions_eq_nil (shaped : program.IsShaped Number.IsNumber)
    (compiled : Compiled natives program functions top rest unit)
    (empty : definitions program = []) : unit.functions = [] := by
  rw [List.eq_nil_iff_forall_not_mem]
  intro ref member
  rcases (compiled.mem_functions_iff shaped).1 member with ⟨number, body, found, _⟩
  have listed := definition_of_body shaped found
  rw [empty] at listed
  cases listed

end Contents

/-- What a source text is compiled to is what its program is compiled to. -/
theorem exists_of_compileSource {source : String} {natives : Resolver} {unit : Unit}
    (compiled : compileSource natives source = .ok unit) :
    ∃ program, Program.ofSource source = .ok program ∧ compile natives program = .ok unit := by
  unfold compileSource at compiled
  cases read : Program.ofSource source with
  | error fault =>
      rw [read] at compiled
      cases compiled
  | ok program =>
      rw [read] at compiled
      exact ⟨program, rfl, compiled⟩

end Compile

end Lehce.Code
