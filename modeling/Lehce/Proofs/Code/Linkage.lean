import Lehce.Proofs.Code.StatementEmission

/-!
# Functions and scopes of a program

Before code is emitted, the functions of a program are collected in a table and a scope
is built for the top level and for each function. This module says what the table and
the scopes are when that succeeds, and which definition or scope is at fault when it
does not. The definitions are met in the order in which their bodies stand in the code.
-/

namespace Lehce

/-- The definition that a node is. -/
def Node.definition? : Node → Option Code.Definition
  | .function position name params bodyPosition body =>
    some ⟨position, name, params, bodyPosition, body⟩
  | _ => none

/-- Whatever occurs in an expression is an expression. -/
theorem Node.IsExpression.of_occurrence {allowed : Float → Prop} {node : Node}
    (shape : node.IsExpression allowed) (deep : Bool) :
    ∀ occurrence ∈ node.occurrences deep, occurrence.IsExpression allowed := by
  induction shape with
  | literal known => simpa [Node.occurrences] using .literal known
  | nothing position => simpa [Node.occurrences] using .nothing position
  | stepBefore steps operandPosition name =>
      simpa [Node.occurrences] using
        ⟨.stepBefore steps operandPosition name, .name (.symbol operandPosition name)⟩
  | stepAfter steps operandPosition name =>
      simpa [Node.occurrences] using
        ⟨.stepAfter steps operandPosition name, .name (.symbol operandPosition name)⟩
  | name named => cases named <;> simpa [Node.occurrences] using .name (by constructor)
  | binary arithmetic leftShape rightShape leftAll rightAll =>
      simp only [Node.occurrences, List.forall_mem_cons, List.forall_mem_append]
      exact ⟨.binary arithmetic leftShape rightShape, leftAll, rightAll⟩
  | comparison compares leftShape rightShape leftAll rightAll =>
      simp only [Node.occurrences, List.forall_mem_cons, List.forall_mem_append]
      exact ⟨.comparison compares leftShape rightShape, leftAll, rightAll⟩
  | logical decides leftShape rightShape leftAll rightAll =>
      simp only [Node.occurrences, List.forall_mem_cons, List.forall_mem_append]
      exact ⟨.logical decides leftShape rightShape, leftAll, rightAll⟩
  | index bodyShape keyShape bodyAll keyAll =>
      simp only [Node.occurrences, List.forall_mem_cons, List.forall_mem_append]
      exact ⟨.index bodyShape keyShape, bodyAll, keyAll⟩
  | call named argShapes argAll =>
      simp only [Node.occurrences, List.forall_mem_cons, List.forall_mem_append,
        Node.mem_occurrencesAll]
      refine ⟨.call named argShapes, ?_, ?_⟩
      · cases named <;> simpa [Node.occurrences] using .name (by constructor)
      · rintro occurrence ⟨arg, member, inside⟩
        exact argAll arg member occurrence inside
  | list itemShapes itemAll =>
      simp only [Node.occurrences, List.forall_mem_cons, Node.mem_occurrencesAll]
      refine ⟨.list itemShapes, ?_⟩
      rintro occurrence ⟨item, member, inside⟩
      exact itemAll item member occurrence inside
  | dict distinct valueShapes valueAll =>
      simp only [Node.occurrences, List.forall_mem_cons, Node.mem_occurrencesEntries]
      refine ⟨.dict distinct valueShapes, ?_⟩
      rintro occurrence ⟨entry, member, inside⟩
      exact valueAll entry member occurrence inside
  | not operandShape operandAll =>
      simp only [Node.occurrences, List.forall_mem_cons]
      exact ⟨.not operandShape, operandAll⟩
  | negate unfolded operandShape operandAll =>
      simp only [Node.occurrences, List.forall_mem_cons]
      exact ⟨.negate unfolded operandShape, operandAll⟩

namespace Code

theorem foldl_definitions {collect : List Definition → Node → List Definition}
    (collects : ∀ found node, collect found node = node.definition?.toList ++ found)
    (nodes : List Node) (found : List Definition) :
    nodes.foldl collect found = (nodes.filterMap Node.definition?).reverse ++ found := by
  induction nodes generalizing found with
  | nil => rfl
  | cons node rest ih =>
      rw [List.foldl_cons, ih, collects, List.filterMap_cons]
      cases node.definition? <;> simp

theorem definitions_eq (program : Program) :
    definitions program = (Node.occurrencesAll true program.items).filterMap Node.definition? := by
  rw [definitions, Node.foldAll_eq_foldl, foldl_definitions]
  · simp
  · intro found node
    cases node <;> rfl

/-- What the reader of programs guarantees of a definition. -/
structure Definition.IsShaped (allowed : Float → Prop) (definition : Definition) : Prop where
  distinct : definition.params.Nodup
  body : ∀ item ∈ definition.body, item.IsStatement allowed false true
  ended : Node.EndsWithReturn definition.body

section Shapes

variable {allowed : Float → Prop}

theorem definition?_of_expression {node : Node} (shape : node.IsExpression allowed) :
    node.definition? = none := by
  cases shape with
  | name named => cases named <;> rfl
  | _ => rfl

theorem definitions_of_expression {node : Node} (shape : node.IsExpression allowed) :
    (node.occurrences true).filterMap Node.definition? = [] :=
  List.filterMap_eq_nil_iff.2 fun occurrence member =>
    definition?_of_expression (shape.of_occurrence true occurrence member)

theorem definitions_of_expressions {nodes : List Node}
    (shapes : ∀ node ∈ nodes, node.IsExpression allowed) :
    (Node.occurrencesAll true nodes).filterMap Node.definition? = [] := by
  rw [List.filterMap_eq_nil_iff]
  intro occurrence member
  rcases Node.mem_occurrencesAll.1 member with ⟨node, nodeMember, inside⟩
  exact definition?_of_expression ((shapes node nodeMember).of_occurrence true occurrence inside)

theorem map_definition_statementsBodies {drops : Bool} {nodes : List Node}
    (maps : ∀ node ∈ nodes, ∀ start, (statementBodies drops start node).map (·.definition) =
      (node.occurrences true).filterMap Node.definition?) (start : Nat) :
    (statementsBodies drops start nodes).map (·.definition) =
      (Node.occurrencesAll true nodes).filterMap Node.definition? := by
  induction nodes generalizing start with
  | nil => rfl
  | cons node rest ih =>
      rcases List.forall_mem_cons.1 maps with ⟨first, others⟩
      simp [statementsBodies, Node.occurrencesAll, first, ih others]

/-- The bodies of a statement are those of the definitions in it, in order. -/
theorem map_definition_statementBodies {inLoop inFunction : Bool} {node : Node}
    (shape : node.IsStatement allowed inLoop inFunction) (drops : Bool) (start : Nat) :
    (statementBodies drops start node).map (·.definition) =
      (node.occurrences true).filterMap Node.definition? := by
  induction shape generalizing drops start with
  | value shape lasting =>
      rw [statementBodies_of_valued drops start shape.isValued, definitions_of_expression shape]
      rfl
  | call named argShapes =>
      cases named <;> simp [statementBodies, Node.occurrences, Node.definition?, List.filterMap_cons,
        definitions_of_expressions argShapes]
  | stepBefore | stepAfter | breaks | continues =>
      simp [statementBodies, Node.occurrences, Node.definition?, List.filterMap_cons]
  | assignment assigns targetPosition name valueShape =>
      simp [statementBodies, Node.occurrences, Node.definition?, List.filterMap_cons,
        definitions_of_expression valueShape]
  | itemAssignment assigns targetPosition bodyShape keyShape valueShape =>
      simp [statementBodies, Node.occurrences, Node.definition?, List.filterMap_cons,
        definitions_of_expression bodyShape, definitions_of_expression keyShape,
        definitions_of_expression valueShape]
  | branch conditionShape bodyShapes bodyMaps =>
      simp [statementBodies, Node.occurrences, Node.definition?, List.filterMap_cons,
        definitions_of_expression conditionShape,
        map_definition_statementsBodies fun item member => bodyMaps item member drops]
  | branchElse conditionShape bodyShapes otherShapes bodyMaps otherMaps =>
      simp [statementBodies, Node.occurrences, Node.definition?, List.filterMap_cons,
        definitions_of_expression conditionShape,
        map_definition_statementsBodies fun item member => bodyMaps item member drops,
        map_definition_statementsBodies fun item member => otherMaps item member drops]
  | branchChain conditionShape bodyShapes chained otherShape bodyMaps otherMaps =>
      simp [statementBodies, Node.occurrences, Node.definition?, List.filterMap_cons,
        definitions_of_expression conditionShape, otherMaps,
        map_definition_statementsBodies fun item member => bodyMaps item member drops]
  | endlessLoop bodyShapes bodyMaps =>
      simp [statementBodies, Node.occurrences, Node.definition?, List.filterMap_cons,
        map_definition_statementsBodies fun item member => bodyMaps item member true]
  | whileLoop conditionShape bodyShapes bodyMaps =>
      simp [statementBodies, Node.occurrences, Node.definition?, List.filterMap_cons,
        definitions_of_expression conditionShape,
        map_definition_statementsBodies fun item member => bodyMaps item member true]
  | returns valueShape =>
      simp [statementBodies, Node.occurrences, Node.definition?, List.filterMap_cons,
        definitions_of_expression valueShape]
  | function distinct bodyShapes ended bodyMaps =>
      simp [statementBodies, Node.occurrences, Node.definition?,
        map_definition_statementsBodies fun item member => bodyMaps item member true]

theorem isShaped_statementsBodies {drops : Bool} {nodes : List Node}
    (shaped : ∀ node ∈ nodes, ∀ start, ∀ body ∈ statementBodies drops start node,
      body.definition.IsShaped allowed) (start : Nat) :
    ∀ body ∈ statementsBodies drops start nodes, body.definition.IsShaped allowed := by
  induction nodes generalizing start with
  | nil => simp [statementsBodies]
  | cons node rest ih =>
      rcases List.forall_mem_cons.1 shaped with ⟨first, others⟩
      simp only [statementsBodies, List.forall_mem_append]
      exact ⟨first start, ih others _⟩

theorem isShaped_statementBodies {inLoop inFunction : Bool} {node : Node}
    (shape : node.IsStatement allowed inLoop inFunction) (drops : Bool) (start : Nat) :
    ∀ body ∈ statementBodies drops start node, body.definition.IsShaped allowed := by
  induction shape generalizing drops start with
  | value shape lasting =>
      rw [statementBodies_of_valued drops start shape.isValued]
      simp
  | call | stepBefore | stepAfter | assignment | itemAssignment | breaks | continues | returns =>
      simp [statementBodies]
  | branch conditionShape bodyShapes bodyShaped =>
      simp only [statementBodies, List.append_nil]
      exact isShaped_statementsBodies (fun item member => bodyShaped item member drops) _
  | branchElse conditionShape bodyShapes otherShapes bodyShaped otherShaped =>
      simp only [statementBodies, List.forall_mem_append]
      exact ⟨isShaped_statementsBodies (fun item member => bodyShaped item member drops) _,
        isShaped_statementsBodies (fun item member => otherShaped item member drops) _⟩
  | branchChain conditionShape bodyShapes chained otherShape bodyShaped otherShaped =>
      simp only [statementBodies, List.forall_mem_append]
      exact ⟨isShaped_statementsBodies (fun item member => bodyShaped item member drops) _,
        otherShaped drops _⟩
  | endlessLoop bodyShapes bodyShaped =>
      exact isShaped_statementsBodies (fun item member => bodyShaped item member true) _
  | whileLoop conditionShape bodyShapes bodyShaped =>
      exact isShaped_statementsBodies (fun item member => bodyShaped item member true) _
  | function distinct bodyShapes ended bodyShaped =>
      simp only [statementBodies, List.forall_mem_cons]
      exact ⟨⟨distinct, bodyShapes, ended⟩,
        isShaped_statementsBodies (fun item member => bodyShaped item member true) _⟩

theorem isKeyed_of_expression {node : Node}
    (shape : node.IsExpression Number.IsNumber) : isKeyed node = true := by
  cases shape with
  | @literal position value known =>
      cases value with
      | number value =>
          have self : (value == value) = true := known
          simp [isKeyed, ConstantKey.ofDatum?, self]
      | empty | bool | text | atom => rfl
      | absent | list | dict | function => cases known
  | name named => cases named <;> rfl
  | _ => rfl

/-- No number in a program lacks a key. -/
theorem isKeyed_of_statement {inLoop inFunction : Bool} {node : Node}
    (shape : node.IsStatement Number.IsNumber inLoop inFunction) :
    ∀ occurrence ∈ node.occurrences false, isKeyed occurrence = true := by
  have expressions {part : Node}
      (shape : part.IsExpression Number.IsNumber) :
      ∀ occurrence ∈ part.occurrences false, isKeyed occurrence = true :=
    fun occurrence member => isKeyed_of_expression (shape.of_occurrence false occurrence member)
  induction shape with
  | value shape lasting => exact expressions shape
  | call named argShapes =>
      simp only [Node.occurrences, List.forall_mem_cons, List.forall_mem_append,
        Node.mem_occurrencesAll]
      refine ⟨rfl, expressions (.name named), ?_⟩
      rintro occurrence ⟨arg, member, inside⟩
      exact expressions (argShapes arg member) occurrence inside
  | stepBefore | stepAfter | breaks | continues | function =>
      simp [Node.occurrences, isKeyed]
  | assignment assigns targetPosition name valueShape =>
      simp only [Node.occurrences, List.forall_mem_cons, List.forall_mem_append]
      exact ⟨rfl, ⟨rfl, by simp⟩, expressions valueShape⟩
  | itemAssignment assigns targetPosition bodyShape keyShape valueShape =>
      simp only [Node.occurrences, List.forall_mem_cons, List.forall_mem_append]
      exact ⟨rfl, ⟨rfl, expressions bodyShape, expressions keyShape⟩, expressions valueShape⟩
  | branch conditionShape bodyShapes bodyKeyed =>
      simp only [Node.occurrences, List.append_nil, List.forall_mem_cons, List.forall_mem_append,
        Node.mem_occurrencesAll]
      refine ⟨rfl, expressions conditionShape, ?_⟩
      rintro occurrence ⟨item, member, inside⟩
      exact bodyKeyed item member occurrence inside
  | branchElse conditionShape bodyShapes otherShapes bodyKeyed otherKeyed =>
      simp only [Node.occurrences, List.forall_mem_cons, List.forall_mem_append,
        Node.mem_occurrencesAll]
      refine ⟨rfl, expressions conditionShape, ?_, rfl, ?_⟩
      · rintro occurrence ⟨item, member, inside⟩
        exact bodyKeyed item member occurrence inside
      · rintro occurrence ⟨item, member, inside⟩
        exact otherKeyed item member occurrence inside
  | branchChain conditionShape bodyShapes chained otherShape bodyKeyed otherKeyed =>
      simp only [Node.occurrences, List.forall_mem_cons, List.forall_mem_append,
        Node.mem_occurrencesAll]
      refine ⟨rfl, expressions conditionShape, ?_, otherKeyed⟩
      rintro occurrence ⟨item, member, inside⟩
      exact bodyKeyed item member occurrence inside
  | endlessLoop bodyShapes bodyKeyed =>
      simp only [Node.occurrences, List.forall_mem_cons, Node.mem_occurrencesAll]
      refine ⟨rfl, ?_⟩
      rintro occurrence ⟨item, member, inside⟩
      exact bodyKeyed item member occurrence inside
  | whileLoop conditionShape bodyShapes bodyKeyed =>
      simp only [Node.occurrences, List.forall_mem_cons, List.forall_mem_append,
        Node.mem_occurrencesAll]
      refine ⟨rfl, expressions conditionShape, ?_⟩
      rintro occurrence ⟨item, member, inside⟩
      exact bodyKeyed item member occurrence inside
  | returns valueShape =>
      simp only [Node.occurrences, List.forall_mem_cons]
      exact ⟨rfl, expressions valueShape⟩

end Shapes

/-- The reference to the definition with a number, before its entry is known. -/
def definitionRef (number : Nat) (definition : Definition) : FunctionRef where
  name := definition.name
  storage := number + 1
  arity := definition.params.length

/-- The reference to the definition with a number whose body stands in the code. -/
def Body.ref (body : Body) (number : Nat) : FunctionRef :=
  { definitionRef number body.definition with entry := body.entry }

/-- The table lists some definitions in order. -/
structure Functions.Lists (functions : Functions) (found : List Definition) : Prop where
  indexes : Indexes functions.places (found.map (·.name))
  refs : functions.refs.toList = found.mapIdx definitionRef

namespace Functions

variable {functions : Functions} {found : List Definition}

theorem lists_empty : Functions.Lists {} [] := ⟨Indexes.empty, by simp⟩

theorem Lists.insert (lists : functions.Lists found) {definition : Definition}
    (fresh : definition.name ∉ found.map (·.name)) :
    (functions.insert (definitionRef found.length definition)).Lists (found ++ [definition]) := by
  have size : functions.refs.size = found.length := by
    rw [← Array.length_toList, lists.refs]
    simp
  constructor
  · have inserted := lists.indexes.insert fresh
    simp only [List.length_map] at inserted
    simpa [Functions.insert, size, definitionRef] using inserted
  · simp [Functions.insert, lists.refs, List.mapIdx_append]

/-- A definition is found under its name. -/
theorem Lists.find? (lists : functions.Lists found) {number : Nat} {definition : Definition}
    (listed : found[number]? = some definition) :
    functions.find? definition.name = some (definitionRef number definition) := by
  have place : functions.places[definition.name]? = some number :=
    (lists.indexes definition.name number).2 (by simp [listed])
  have ref : functions.refs[number]? = some (definitionRef number definition) := by
    rw [← Array.getElem?_toList, lists.refs, List.getElem?_mapIdx, listed]
    rfl
  simp [Functions.find?, place, ref]

theorem Lists.find?_eq_none_iff (lists : functions.Lists found) (name : String) :
    functions.find? name = none ↔ name ∉ found.map (·.name) := by
  constructor
  · intro absent listed
    rcases List.mem_map.1 listed with ⟨definition, member, rfl⟩
    rcases List.mem_iff_getElem?.1 member with ⟨number, at_⟩
    rw [lists.find? at_] at absent
    cases absent
  · intro absent
    rw [Functions.find?, (lists.indexes.getElem?_eq_none_iff name).2 absent]
    rfl

theorem Lists.isSome_find? (lists : functions.Lists found) (name : String) :
    (functions.find? name).isSome = (found.map (·.name)).contains name := by
  rw [Bool.eq_iff_iff, Option.isSome_iff_ne_none, ne_eq, lists.find?_eq_none_iff, not_not,
    List.contains_iff_mem]

theorem setEntry_of_place {place : Nat} {name : String}
    (known : functions.places[name]? = some place) (entry : Nat) :
    functions.setEntry name entry =
      { functions with refs := functions.refs.modify place fun ref => { ref with entry } } := by
  simp [setEntry, known]

theorem places_setEntries (functions : Functions) (bodies : List Body) :
    (functions.setEntries bodies).places = functions.places := by
  induction bodies generalizing functions with
  | nil => rfl
  | cons body rest ih =>
      refine (ih (functions.setEntry body.definition.name body.entry)).trans ?_
      unfold setEntry
      split <;> rfl

/-- Entries that are recorded one after the other: those of `done` are there already. -/
theorem getElem?_setEntries {rest : List Body} (done : List Body)
    (indexes : Indexes functions.places ((done ++ rest).map (·.definition.name)))
    (listed : ∀ (number : Nat) (body : Body), (done ++ rest)[number]? = some body →
      functions.refs[number]? = some
        (if number < done.length then body.ref number else definitionRef number body.definition)) :
    ∀ (number : Nat) (body : Body), (done ++ rest)[number]? = some body →
      (functions.setEntries rest).refs[number]? = some (body.ref number) := by
  induction rest generalizing functions done with
  | nil =>
      intro number body found
      have inside := (List.getElem?_eq_some_iff.1 found).1
      simp only [List.length_append, List.length_nil, Nat.add_zero] at inside
      have recorded := listed number body found
      rw [if_pos inside] at recorded
      exact recorded
  | cons next rest ih =>
      have place : functions.places[next.definition.name]? = some done.length :=
        (indexes _ _).2 (by simp)
      have moved : done ++ next :: rest = done ++ [next] ++ rest := by simp
      rw [moved] at indexes listed ⊢
      change ∀ (number : Nat) (body : Body), (done ++ [next] ++ rest)[number]? = some body →
        ((functions.setEntry next.definition.name next.entry).setEntries rest).refs[number]? =
          some (body.ref number)
      refine ih (done ++ [next]) ?_ ?_
      · rw [setEntry_of_place place]
        exact indexes
      · intro number body found
        have earlier := listed number body found
        rw [setEntry_of_place place, Array.getElem?_modify, earlier]
        by_cases here : done.length = number
        · have same : body = next := by
            rw [← here] at found
            simpa using found.symm
          subst here same
          simp [Body.ref]
        · have shifted : number < (done ++ [next]).length ↔ number < done.length := by
            simp only [List.length_append, List.length_singleton]
            omega
          simp only [here, if_false, shifted]

/-- The references of a table in which the entries of its functions are recorded. -/
theorem Lists.refs_setEntries {bodies : List Body}
    (lists : functions.Lists (bodies.map (·.definition))) {number : Nat} {body : Body}
    (found : bodies[number]? = some body) :
    (functions.setEntries bodies).refs[number]? = some (body.ref number) := by
  have indexes := lists.indexes
  rw [List.map_map] at indexes
  refine getElem?_setEntries [] indexes ?_ number body found
  intro number body found
  rw [← Array.getElem?_toList, lists.refs, List.getElem?_mapIdx, List.getElem?_map]
  simp only [List.nil_append] at found
  simp [found]

theorem size_setEntries (functions : Functions) (bodies : List Body) :
    (functions.setEntries bodies).refs.size = functions.refs.size := by
  induction bodies generalizing functions with
  | nil => rfl
  | cons body rest ih =>
      refine (ih (functions.setEntry body.definition.name body.entry)).trans ?_
      unfold setEntry
      split <;> simp

/-- All references of such a table are those of bodies. -/
theorem Lists.mem_refs_setEntries {bodies : List Body}
    (lists : functions.Lists (bodies.map (·.definition))) {ref : FunctionRef}
    (member : ref ∈ (functions.setEntries bodies).refs.toList) :
    ∃ (number : Nat) (body : Body), bodies[number]? = some body ∧ ref = body.ref number := by
  rcases List.mem_iff_getElem?.1 member with ⟨number, listed⟩
  have inside := (List.getElem?_eq_some_iff.1 listed).1
  have count := congrArg List.length lists.refs
  simp only [List.length_mapIdx, List.length_map, Array.length_toList] at count
  rw [Array.length_toList, size_setEntries, count] at inside
  have found : bodies[number]? = some bodies[number] := List.getElem?_eq_getElem inside
  rw [Array.getElem?_toList, lists.refs_setEntries found] at listed
  exact ⟨number, _, found, (Option.some.inj listed).symm⟩

end Functions

/-- Adds a definition to the table, unless its name is known. -/
def addFunction (functions : Functions) (definition : Definition) : Except Fault Functions :=
  if functions.places.contains definition.name then
    .error (.detailed .duplicateDefinition definition.position ("function " ++ definition.name))
  else
    .ok (functions.insert
      { name := definition.name
        storage := functions.refs.size + 1
        arity := definition.params.length })

theorem collectFunctions_eq (found : List Definition) :
    collectFunctions found = found.foldlM addFunction {} := rfl

/-- The fault of a definition whose name is known. -/
def duplicateFault (definition : Definition) : Fault :=
  .detailed .duplicateDefinition definition.position ("function " ++ definition.name)

theorem foldlM_addFunction {functions : Functions} (rest seen : List Definition)
    (lists : functions.Lists seen) :
    match rest.foldlM addFunction functions with
    | .ok functions => functions.Lists (seen ++ rest) ∧ ((seen ++ rest).map (·.name)).Nodup
    | .error fault =>
        ¬((seen ++ rest).map (·.name)).Nodup ∧
          ∃ definition ∈ seen ++ rest, fault = duplicateFault definition := by
  induction rest generalizing seen functions with
  | nil =>
      simp only [List.foldlM_nil, List.append_nil]
      exact ⟨lists, lists.indexes.nodup⟩
  | cons definition rest ih =>
      rw [List.foldlM_cons]
      by_cases known : functions.places.contains definition.name
      · have listed := (lists.indexes.contains_iff definition.name).1 known
        simp only [addFunction, known, if_true]
        refine ⟨?_, definition, by simp, rfl⟩
        simp only [List.map_append, List.map_cons, List.nodup_append]
        rintro ⟨_, _, apart⟩
        exact apart definition.name listed definition.name List.mem_cons_self rfl
      · have fresh : definition.name ∉ seen.map (·.name) := fun listed =>
          known ((lists.indexes.contains_iff definition.name).2 listed)
        have size : functions.refs.size = seen.length := by
          rw [← Array.length_toList, lists.refs]
          simp
        have added : addFunction functions definition =
            .ok (functions.insert (definitionRef seen.length definition)) := by
          simp [addFunction, known, definitionRef, size]
        have later := ih (seen ++ [definition]) (lists.insert fresh)
        rw [List.append_assoc, List.singleton_append] at later
        rw [added]
        exact later

/-- Functions are collected when their names are distinct; the fault is at a repeated one. -/
theorem collectFunctions_spec (found : List Definition) :
    match collectFunctions found with
    | .ok functions => functions.Lists found ∧ (found.map (·.name)).Nodup
    | .error fault =>
        ¬(found.map (·.name)).Nodup ∧ ∃ definition ∈ found, fault = duplicateFault definition :=
  foldlM_addFunction found [] Functions.lists_empty

/-- What is wrong with a scope that cannot be built. -/
def ScopeFault (functions : Functions) (natives : Resolver) (name : String) (params : List String)
    (position : Position) (body : List Node) (fault : Fault) : Prop :=
  (∃ node ∈ Node.occurrencesAll false body, fault = unresolvedFault node ∧
    ¬isResolved functions natives (isVariable params body) node) ∨
  (fault = .detailed .syntaxError position ("too many slots in " ++ name) ∧
    maxOperand < slotCount functions natives params body)

/-- The scopes serve definitions, one after the other. -/
def ServesAll (functions : Functions) (natives : Resolver) (found : List Definition)
    (scopes : List Scope) : Prop :=
  List.Forall₂ (fun definition (scope : Scope) =>
    scope.Serves functions natives definition.params definition.body) found scopes

/-- Builds the scope of a definition and adds it. -/
def addScope (functions : Functions) (natives : Resolver) (scopes : Array Scope)
    (definition : Definition) : Except Fault (Array Scope) := do
  let scope ← Scope.build functions natives definition.name definition.params
    definition.bodyPosition definition.body
  return scopes.push scope

theorem collectScopes_eq (functions : Functions) (natives : Resolver) (program : Program)
    (found : List Definition) :
    collectScopes functions natives program found = (do
      let top ← Scope.build functions natives "" [] program.position program.items
      found.foldlM (addScope functions natives) #[top]) := rfl

theorem foldlM_addScope (functions : Functions) (natives : Resolver) (rest : List Definition) (scopes : Array Scope)
    (keyed : ∀ definition ∈ rest, ∀ node ∈ Node.occurrencesAll false definition.body,
      isKeyed node) :
    match rest.foldlM (addScope functions natives) scopes with
    | .ok after => ∃ added, after.toList = scopes.toList ++ added ∧
        ServesAll functions natives rest added
    | .error fault => ∃ definition ∈ rest, ScopeFault functions natives definition.name
        definition.params definition.bodyPosition definition.body fault := by
  induction rest generalizing scopes with
  | nil => exact ⟨[], by simp, .nil⟩
  | cons definition rest ih =>
      rcases List.forall_mem_cons.1 keyed with ⟨here, later⟩
      have spec := Scope.build_spec functions natives definition.name definition.params
        definition.bodyPosition definition.body here
      rw [List.foldlM_cons]
      cases built : Scope.build functions natives definition.name definition.params
        definition.bodyPosition definition.body with
      | error fault =>
          rw [built] at spec
          simp only [addScope, built]
          exact ⟨definition, List.mem_cons_self, spec⟩
      | ok scope =>
          rw [built] at spec
          have added : addScope functions natives scopes definition = .ok (scopes.push scope) := by
            simp only [addScope, built]
            rfl
          have others := ih (scopes.push scope) later
          rw [added]
          change match rest.foldlM (addScope functions natives) (scopes.push scope) with
            | .ok after => _
            | .error fault => _
          cases collected : rest.foldlM (addScope functions natives) (scopes.push scope) with
          | ok after =>
              rw [collected] at others
              rcases others with ⟨more, listed, serves⟩
              exact ⟨scope :: more, by simpa using listed, .cons spec serves⟩
          | error fault =>
              rw [collected] at others
              rcases others with ⟨other, member, wrong⟩
              exact ⟨other, List.mem_cons_of_mem _ member, wrong⟩

/-- Scopes are collected when each of them can be built. -/
theorem collectScopes_spec (functions : Functions) (natives : Resolver) (program : Program)
    (found : List Definition)
    (keyedTop : ∀ node ∈ Node.occurrencesAll false program.items, isKeyed node)
    (keyed : ∀ definition ∈ found, ∀ node ∈ Node.occurrencesAll false definition.body,
      isKeyed node) :
    match collectScopes functions natives program found with
    | .ok scopes => ∃ top rest, scopes.toList = top :: rest ∧
        top.Serves functions natives [] program.items ∧ ServesAll functions natives found rest
    | .error fault =>
        ScopeFault functions natives "" [] program.position program.items fault ∨
          ∃ definition ∈ found, ScopeFault functions natives definition.name definition.params
            definition.bodyPosition definition.body fault := by
  have spec := Scope.build_spec functions natives "" [] program.position program.items keyedTop
  rw [collectScopes_eq]
  cases built : Scope.build functions natives "" [] program.position program.items with
  | error fault =>
      rw [built] at spec
      exact .inl spec
  | ok top =>
      rw [built] at spec
      have others := foldlM_addScope functions natives found #[top] keyed
      change match found.foldlM (addScope functions natives) #[top] with
        | .ok scopes => _
        | .error fault => _
      cases collected : found.foldlM (addScope functions natives) #[top] with
      | ok scopes =>
          rw [collected] at others
          rcases others with ⟨rest, listed, serves⟩
          exact ⟨top, rest, by simpa using listed, spec, serves⟩
      | error fault =>
          rw [collected] at others
          exact .inr others

end Code

end Lehce
