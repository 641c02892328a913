import Mathlib.Data.List.Dedup
import Lehce.Proofs.Places
import Lehce.Proofs.Program.Occurrences

/-!
# What a scope holds

A scope is built by two walks over its statements: the first declares its
variables, the second adds its constants. This module says what is in the scope
afterwards, in terms of the nodes that occur in it: `scopeVariables` lists the names
that are variables, `scopeConstants` what is added as a constant and under which
key, the first under a key being the one that is kept. `Scope.build` succeeds
exactly when every name is resolved and the slots are not too many.
-/

namespace Lehce

/-- The variable that a node assigns, increments or decrements. -/
def Node.assigned? : Node → Option String
  | .assignment _ (.symbol _ name) _ _ => some name
  | .prefixed _ .increment (.symbol _ name) _ | .prefixed _ .decrement (.symbol _ name) _ =>
    some name
  | .suffixed _ _ (.symbol _ name) _ => some name
  | _ => none

/-- The variables of a scope: its parameters and what its statements assign, with repetitions. -/
def scopeVariables (params : List String) (body : List Node) : List String :=
  params ++ (Node.occurrencesAll false body).filterMap Node.assigned?

namespace Code

/-- The constants that a node adds to its scope, in which `bound` tells the variables. -/
def nodeConstants (functions : Functions) (natives : Resolver) (bound : String → Bool) :
    Node → List (ConstantKey × Datum)
  | .literal _ value => (ConstantKey.ofDatum? value).toList.map fun key => (key, value)
  | .nothing _ => [(.empty, .empty)]
  | .dict _ entries => entries.map fun entry => (.text entry.1, .text entry.1)
  | .symbol _ name =>
    if bound name then []
    else (resolveFunction functions natives name).toList.map fun found =>
      (found.1, .function found.2)
  | .path _ parts =>
    (resolveNative natives (pathName parts)).toList.map fun found => (found.1, .function found.2)
  | _ => []

/-- Whether a node that is a name stands for something. -/
def isResolved (functions : Functions) (natives : Resolver) (bound : String → Bool) :
    Node → Bool
  | .symbol _ name => bound name || (resolveFunction functions natives name).isSome
  | .path _ parts => (resolveNative natives (pathName parts)).isSome
  | _ => true

/-- The name that a node is. -/
def nameText : Node → String
  | .symbol _ name => name
  | .path _ parts => pathName parts
  | _ => ""

/-- The fault of a name that stands for nothing. -/
def unresolvedFault (node : Node) : Fault :=
  .detailed .unresolvedSymbol node.position (nameText node)

/-- Whether a node is no literal without a key. -/
def isKeyed : Node → Bool
  | .literal _ value => (ConstantKey.ofDatum? value).isSome
  | _ => true

/-- Whether a name is a variable of a scope. -/
def isVariable (params : List String) (body : List Node) (name : String) : Bool :=
  (scopeVariables params body).contains name

/-- The constants that are added to a scope, in order and with repetitions. -/
def scopeConstants (functions : Functions) (natives : Resolver) (params : List String)
    (body : List Node) : List (ConstantKey × Datum) :=
  (Node.occurrencesAll false body).flatMap
    (nodeConstants functions natives (isVariable params body))

/-- How many slots a scope needs: one for each key of a constant and one for each variable. -/
def slotCount (functions : Functions) (natives : Resolver) (params : List String)
    (body : List Node) : Nat :=
  ((scopeConstants functions natives params body).map (·.1)).dedup.length +
    (scopeVariables params body).dedup.length

namespace Scope

/-- The scope has these variables and no others. -/
structure HoldsVariables (scope : Scope) (names : List String) : Prop where
  indexes : Indexes scope.variablePlaces scope.locals.toList
  mem_iff : ∀ name, name ∈ scope.locals.toList ↔ name ∈ names

/-- The scope has these constants; under each key the first of them. -/
def HoldsConstants (scope : Scope) (constants : List (ConstantKey × Datum)) : Prop :=
  ∃ keys : List ConstantKey,
    Indexes scope.constantPlaces keys ∧ keys.length = scope.constants.size ∧
      (∀ key, key ∈ keys ↔ key ∈ constants.map (·.1)) ∧
        ∀ (place : Nat) (key : ConstantKey), keys[place]? = some key →
          scope.constants[place]? = constants.lookup key

theorem holdsVariables_empty : HoldsVariables {} [] := ⟨Indexes.empty, by simp⟩

theorem holdsConstants_empty : HoldsConstants {} [] := ⟨[], Indexes.empty, by simp, by simp, by simp⟩

variable {scope : Scope} {names : List String} {constants : List (ConstantKey × Datum)}

theorem declare_of_mem (holds : scope.HoldsVariables names) {name : String}
    (present : name ∈ names) : scope.declare name = scope := by
  have known : scope.variablePlaces.contains name = true :=
    (holds.indexes.contains_iff name).2 ((holds.mem_iff name).2 present)
  simp [declare, known]

theorem declare_of_not_mem (holds : scope.HoldsVariables names) {name : String}
    (fresh : name ∉ names) :
    (scope.declare name).locals = scope.locals.push name ∧
      (scope.declare name).variablePlaces =
        scope.variablePlaces.insert name scope.locals.size := by
  have unknown : ¬scope.variablePlaces.contains name = true := fun known =>
    fresh ((holds.mem_iff name).1 ((holds.indexes.contains_iff name).1 known))
  simp [declare, unknown]

@[simp]
theorem declare_constants (scope : Scope) (name : String) :
    (scope.declare name).constants = scope.constants ∧
      (scope.declare name).constantPlaces = scope.constantPlaces := by
  unfold declare
  split <;> simp

theorem HoldsVariables.declare (holds : scope.HoldsVariables names) (name : String) :
    (scope.declare name).HoldsVariables (names ++ [name]) := by
  by_cases present : name ∈ names
  · rw [declare_of_mem holds present]
    refine ⟨holds.indexes, fun other => ?_⟩
    rw [holds.mem_iff, List.mem_append, List.mem_singleton]
    constructor
    · exact .inl
    · rintro (old | rfl)
      · exact old
      · exact present
  · rcases declare_of_not_mem holds present with ⟨locals, places⟩
    have fresh : name ∉ scope.locals.toList := fun found => present ((holds.mem_iff name).1 found)
    constructor
    · rw [locals, places]
      simpa using holds.indexes.insert fresh
    · intro other
      rw [locals, Array.toList_push, List.mem_append, List.mem_append, holds.mem_iff]

/-- Declaring only adds variables at the end. -/
theorem declare_extends (scope : Scope) (name : String) :
    scope.locals.toList <+: (scope.declare name).locals.toList := by
  unfold declare
  split
  · exact List.prefix_refl _
  · simp

theorem HoldsVariables.declareAll (holds : scope.HoldsVariables names) (added : List String) :
    (added.foldl Scope.declare scope).HoldsVariables (names ++ added) := by
  induction added generalizing scope names with
  | nil => simpa using holds
  | cons name rest ih => simpa using ih (holds.declare name)

theorem declareAll_extends (added : List String) (scope : Scope) :
    scope.locals.toList <+: (added.foldl Scope.declare scope).locals.toList := by
  induction added generalizing scope with
  | nil => exact List.prefix_refl _
  | cons name rest ih => exact (declare_extends scope name).trans (ih _)

theorem declareAll_constants (added : List String) (scope : Scope) :
    (added.foldl Scope.declare scope).constants = scope.constants ∧
      (added.foldl Scope.declare scope).constantPlaces = scope.constantPlaces := by
  induction added generalizing scope with
  | nil => simp
  | cons name rest ih => simpa using ih (scope.declare name)

/-- Distinct names are declared in their order. -/
theorem declareAll_locals_of_nodup (added : List String)
    (holds : scope.HoldsVariables names) (distinct : added.Nodup)
    (fresh : ∀ name ∈ added, name ∉ names) :
    (added.foldl Scope.declare scope).locals.toList = scope.locals.toList ++ added := by
  induction added generalizing scope names with
  | nil => simp
  | cons name rest ih =>
      rcases List.nodup_cons.1 distinct with ⟨notRepeated, restDistinct⟩
      have first := (declare_of_not_mem holds (fresh name List.mem_cons_self)).1
      have later : ∀ other ∈ rest, other ∉ names ++ [name] := by
        intro other member
        rw [List.mem_append, List.mem_singleton]
        rintro (old | rfl)
        · exact fresh other (List.mem_cons_of_mem _ member) old
        · exact notRepeated member
      rw [List.foldl_cons, ih (holds.declare name) restDistinct later, first]
      simp

/-- A name is declared where it comes first. -/
theorem declare_ordered (holds : scope.HoldsVariables names)
    (ordered : scope.locals.toList = names.eraseDups) (name : String) :
    (scope.declare name).locals.toList = (names ++ [name]).eraseDups := by
  rw [List.eraseDups_append, ← ordered]
  by_cases present : name ∈ names
  · rw [declare_of_mem holds present]
    simp [List.removeAll, present]
  · rw [(declare_of_not_mem holds present).1]
    simp [List.removeAll, present, List.eraseDups_cons]

theorem declareAll_ordered (added : List String) (holds : scope.HoldsVariables names)
    (ordered : scope.locals.toList = names.eraseDups) :
    (added.foldl Scope.declare scope).locals.toList = (names ++ added).eraseDups := by
  induction added generalizing scope names with
  | nil => simpa using ordered
  | cons name rest ih =>
      simpa using ih (holds.declare name) (declare_ordered holds ordered name)

theorem declareNode_eq (scope : Scope) (node : Node) :
    scope.declareNode node = (node.assigned?.toList).foldl Scope.declare scope := by
  unfold declareNode Node.assigned?
  split <;> simp_all

theorem foldl_declareNode (nodes : List Node) (scope : Scope) :
    nodes.foldl Scope.declareNode scope =
      (nodes.filterMap Node.assigned?).foldl Scope.declare scope := by
  induction nodes generalizing scope with
  | nil => rfl
  | cons node rest ih =>
      rw [List.foldl_cons, ih, declareNode_eq, List.filterMap_cons]
      cases node.assigned? <;> simp

@[simp]
theorem addConstant_variables (scope : Scope) (key : ConstantKey) (value : Datum) :
    (scope.addConstant key value).locals = scope.locals ∧
      (scope.addConstant key value).variablePlaces = scope.variablePlaces := by
  unfold addConstant
  split <;> simp

/-- Adds constants one after the other. -/
def addConstants (scope : Scope) (added : List (ConstantKey × Datum)) : Scope :=
  added.foldl (fun scope constant => scope.addConstant constant.1 constant.2) scope

@[simp]
theorem addConstants_nil (scope : Scope) : scope.addConstants [] = scope := rfl

@[simp]
theorem addConstants_cons (scope : Scope) (constant : ConstantKey × Datum)
    (rest : List (ConstantKey × Datum)) :
    scope.addConstants (constant :: rest) =
      (scope.addConstant constant.1 constant.2).addConstants rest := rfl

theorem addConstants_append (scope : Scope) (front back : List (ConstantKey × Datum)) :
    scope.addConstants (front ++ back) = (scope.addConstants front).addConstants back := by
  simp [addConstants]

theorem addConstants_variables (added : List (ConstantKey × Datum)) (scope : Scope) :
    (scope.addConstants added).locals = scope.locals ∧
      (scope.addConstants added).variablePlaces = scope.variablePlaces := by
  induction added generalizing scope with
  | nil => simp
  | cons constant rest ih => simpa using ih (scope.addConstant constant.1 constant.2)

theorem HoldsConstants.addConstant (holds : scope.HoldsConstants constants) (key : ConstantKey)
    (value : Datum) : (scope.addConstant key value).HoldsConstants (constants ++ [(key, value)]) := by
  rcases holds with ⟨keys, indexes, sizes, mem_iff, kept⟩
  unfold Scope.addConstant
  split
  · rename_i known
    have present := (indexes.contains_iff key).1 known
    refine ⟨keys, indexes, sizes, ?_, ?_⟩
    · intro other
      rw [mem_iff, List.map_append, List.mem_append]
      constructor
      · exact .inl
      · rintro (old | added)
        · exact old
        · rw [List.mem_singleton.1 added]
          exact (mem_iff key).1 present
    · -- a key that is present keeps its first constant
      intro place other found
      have listed := (mem_iff other).1 (List.mem_of_getElem? found)
      rw [kept place other found, List.lookup_append]
      have present : (constants.lookup other).isSome := by
        simpa [List.lookup_isSome_iff] using listed
      rw [Option.or_of_isSome present]
  · rename_i unknown
    have fresh : key ∉ keys := fun present => unknown ((indexes.contains_iff key).2 present)
    refine ⟨keys ++ [key], ?_, by simp [sizes], ?_, ?_⟩
    · simpa [sizes] using indexes.insert fresh
    · intro other
      rw [List.mem_append, mem_iff, List.map_append, List.mem_append]
      simp
    · intro place other found
      simp only [Array.getElem?_push, List.lookup_append]
      rw [List.getElem?_append] at found
      split at found
      · rename_i inside
        have listed := (mem_iff other).1 (List.mem_of_getElem? found)
        have present : (constants.lookup other).isSome := by
          simpa [List.lookup_isSome_iff] using listed
        have notLast : place ≠ scope.constants.size := by omega
        rw [if_neg notLast, kept place other found, Option.or_of_isSome present]
      · rename_i behind
        rw [List.getElem?_singleton] at found
        split at found
        · cases found
          have last : place = scope.constants.size := by omega
          have absent : constants.lookup key = none := by
            have notListed : key ∉ constants.map (·.1) := fun listed =>
              fresh ((mem_iff key).2 listed)
            cases present : constants.lookup key with
            | none => rfl
            | some value =>
                refine absurd ?_ notListed
                have isSome : (constants.lookup key).isSome := by simp [present]
                simpa [List.lookup_isSome_iff] using isSome
          rw [if_pos last, absent]
          simp
        · simp at found

theorem HoldsConstants.addConstants (holds : scope.HoldsConstants constants)
    (added : List (ConstantKey × Datum)) :
    (scope.addConstants added).HoldsConstants (constants ++ added) := by
  induction added generalizing scope constants with
  | nil => simpa using holds
  | cons constant rest ih => simpa using ih (holds.addConstant constant.1 constant.2)

theorem HoldsVariables.size_eq (holds : scope.HoldsVariables names) :
    scope.locals.size = names.dedup.length := by
  have same : scope.locals.toList.Perm names.dedup :=
    (List.perm_ext_iff_of_nodup holds.indexes.nodup (List.nodup_dedup _)).2 fun name => by
      rw [holds.mem_iff, List.mem_dedup]
  simpa using same.length_eq

theorem HoldsConstants.size_eq (holds : scope.HoldsConstants constants) :
    scope.constants.size = (constants.map (·.1)).dedup.length := by
  rcases holds with ⟨keys, indexes, sizes, mem_iff, _⟩
  have same : keys.Perm (constants.map (·.1)).dedup :=
    (List.perm_ext_iff_of_nodup indexes.nodup (List.nodup_dedup _)).2 fun key => by
      rw [mem_iff, List.mem_dedup]
  rw [← sizes]
  exact same.length_eq

/-- A constant of the scope stands in a slot, and it is the first one under its key. -/
theorem HoldsConstants.slot (holds : scope.HoldsConstants constants) {key : ConstantKey}
    (listed : key ∈ constants.map (·.1)) :
    ∃ slot, scope.constantSlot? key = some slot ∧ slot < scope.constants.size ∧
      scope.constants[slot]? = constants.lookup key := by
  rcases holds with ⟨keys, indexes, sizes, mem_iff, kept⟩
  rcases List.mem_iff_getElem?.1 ((mem_iff key).2 listed) with ⟨slot, found⟩
  have inside := (List.getElem?_eq_some_iff.1 found).1
  exact ⟨slot, (indexes key slot).2 found, by omega, kept slot key found⟩

theorem HoldsConstants.slot_iff (holds : scope.HoldsConstants constants) (key : ConstantKey) :
    (scope.constantSlot? key).isSome ↔ key ∈ constants.map (·.1) := by
  rcases holds with ⟨keys, indexes, sizes, mem_iff, kept⟩
  rw [← mem_iff, ← indexes.contains_iff, constantSlot?,
    Std.HashMap.contains_eq_isSome_getElem?]

/-- The slot of a variable is its place behind the constants. -/
theorem HoldsVariables.slot_iff (holds : scope.HoldsVariables names) (name : String)
    (slot : Nat) :
    scope.variableSlot? name = some slot ↔
      ∃ place, slot = scope.constants.size + place ∧ scope.locals.toList[place]? = some name := by
  unfold variableSlot?
  rw [Option.map_eq_some_iff]
  constructor
  · rintro ⟨place, found, rfl⟩
    exact ⟨place, rfl, (holds.indexes name place).1 found⟩
  · rintro ⟨place, rfl, found⟩
    exact ⟨place, (holds.indexes name place).2 found, rfl⟩

theorem HoldsVariables.slot_isSome_iff (holds : scope.HoldsVariables names) (name : String) :
    (scope.variableSlot? name).isSome ↔ name ∈ names := by
  rw [← holds.mem_iff, ← holds.indexes.contains_iff, variableSlot?, Option.isSome_map,
    Std.HashMap.contains_eq_isSome_getElem?]

end Scope

section Building

variable {functions : Functions} {natives : Resolver}

theorem ScopeDraft.visit_scope (draft : ScopeDraft) {node : Node} (keyed : isKeyed node) :
    (draft.visit functions natives node).scope =
      draft.scope.addConstants
        (nodeConstants functions natives draft.scope.variablePlaces.contains node) := by
  cases node with
  | literal position value =>
      rcases Option.isSome_iff_exists.1 keyed with ⟨key, keyEq⟩
      simp [visit, nodeConstants, Scope.addScalar, keyEq]
  | nothing => simp [visit, nodeConstants, Scope.addScalar, ConstantKey.ofDatum?]
  | dict position entries =>
      simp only [visit, nodeConstants, Scope.addConstants, List.foldl_map]
      rfl
  | symbol position name =>
      simp only [visit, nodeConstants]
      split
      · simp
      · cases resolveFunction functions natives name <;> simp [resolve]
  | path position parts =>
      simp only [visit, nodeConstants]
      cases resolveNative natives (pathName parts) <;> simp [resolve]
  | _ => simp [visit, nodeConstants]

/-- A visit notes a fault at the first name that stands for nothing. -/
theorem ScopeDraft.visit_fault (draft : ScopeDraft) (node : Node) :
    (draft.visit functions natives node).fault = draft.fault ∧
        isResolved functions natives draft.scope.variablePlaces.contains node ∨
      (draft.visit functions natives node).fault =
          some (draft.fault.getD (unresolvedFault node)) ∧
        ¬isResolved functions natives draft.scope.variablePlaces.contains node := by
  cases node with
  | symbol position name =>
      simp only [visit, isResolved]
      split
      · rename_i bound
        simp [bound]
      · rename_i free
        cases found : resolveFunction functions natives name with
        | some constant => simp [resolve]
        | none =>
            refine .inr ⟨?_, by simp [free]⟩
            cases draftFault : draft.fault <;>
              simp [resolve, draftFault, unresolvedFault, nameText, Node.position]
  | path position parts =>
      simp only [visit, isResolved]
      cases found : resolveNative natives (pathName parts) with
      | some constant => simp [resolve]
      | none =>
          refine .inr ⟨?_, by simp⟩
          cases draftFault : draft.fault <;>
            simp [resolve, draftFault, unresolvedFault, nameText, Node.position]
  | _ => simp [visit, isResolved]

theorem foldl_visit_scope (functions : Functions) (natives : Resolver) (nodes : List Node)
    (keyed : ∀ node ∈ nodes, isKeyed node) (draft : ScopeDraft) :
    (nodes.foldl (ScopeDraft.visit functions natives) draft).scope =
      draft.scope.addConstants
        (nodes.flatMap (nodeConstants functions natives draft.scope.variablePlaces.contains)) := by
  induction nodes generalizing draft with
  | nil => simp
  | cons node rest ih =>
      rcases List.forall_mem_cons.1 keyed with ⟨nodeKeyed, restKeyed⟩
      have samePlaces : (draft.visit functions natives node).scope.variablePlaces =
          draft.scope.variablePlaces := by
        rw [draft.visit_scope nodeKeyed]
        exact (Scope.addConstants_variables _ _).2
      rw [List.foldl_cons, ih restKeyed, samePlaces, draft.visit_scope nodeKeyed,
        List.flatMap_cons, Scope.addConstants_append]

/-- A fault that has been noted stays. -/
theorem foldl_visit_fault_of_some (functions : Functions) (natives : Resolver) (nodes : List Node)
    {draft : ScopeDraft} {fault : Fault} (noted : draft.fault = some fault) :
    (nodes.foldl (ScopeDraft.visit functions natives) draft).fault = some fault := by
  induction nodes generalizing draft with
  | nil => exact noted
  | cons node rest ih =>
      apply ih
      rcases draft.visit_fault node with ⟨kept, _⟩ | ⟨kept, _⟩
      · exact kept.trans noted
      · rw [kept, noted]
        rfl

theorem foldl_visit_fault (functions : Functions) (natives : Resolver) (nodes : List Node)
    (keyed : ∀ node ∈ nodes, isKeyed node) (draft : ScopeDraft) (sound : draft.fault = none) :
    match (nodes.foldl (ScopeDraft.visit functions natives) draft).fault with
    | none => ∀ node ∈ nodes,
        isResolved functions natives draft.scope.variablePlaces.contains node
    | some fault => ∃ node ∈ nodes, fault = unresolvedFault node ∧
        ¬isResolved functions natives draft.scope.variablePlaces.contains node := by
  induction nodes generalizing draft with
  | nil => simp [sound]
  | cons node rest ih =>
      rcases List.forall_mem_cons.1 keyed with ⟨nodeKeyed, restKeyed⟩
      have samePlaces : (draft.visit functions natives node).scope.variablePlaces =
          draft.scope.variablePlaces := by
        rw [draft.visit_scope nodeKeyed]
        exact (Scope.addConstants_variables _ _).2
      rw [List.foldl_cons]
      rcases draft.visit_fault node with ⟨kept, resolved⟩ | ⟨noted, unresolved⟩
      · have later := ih restKeyed (draft.visit functions natives node) (kept.trans sound)
        rw [samePlaces] at later
        split at later
        · exact List.forall_mem_cons.2 ⟨resolved, later⟩
        · rcases later with ⟨other, member, faultEq, unresolved⟩
          exact ⟨other, List.mem_cons_of_mem _ member, faultEq, unresolved⟩
      · rw [sound] at noted
        rw [foldl_visit_fault_of_some functions natives rest noted]
        exact ⟨node, List.mem_cons_self, rfl, unresolved⟩

/-- What a successful construction of a scope guarantees. -/
structure Scope.Serves (functions : Functions) (natives : Resolver) (params : List String)
    (body : List Node) (scope : Scope) : Prop where
  resolved : ∀ node ∈ Node.occurrencesAll false body,
    isResolved functions natives (isVariable params body) node
  holdsVariables : scope.HoldsVariables (scopeVariables params body)
  holdsConstants : scope.HoldsConstants (scopeConstants functions natives params body)
  fits : scope.constants.size + scope.locals.size ≤ maxOperand
  ordered : scope.locals.toList = (scopeVariables params body).eraseDups
  paramsFirst : params.Nodup → params <+: scope.locals.toList

theorem Scope.Serves.slotCount_eq {params : List String} {body : List Node} {scope : Scope}
    (serves : scope.Serves functions natives params body) :
    scope.constants.size + scope.locals.size = slotCount functions natives params body := by
  rw [serves.holdsConstants.size_eq, serves.holdsVariables.size_eq, slotCount]

/-- A scope is built when every name is resolved and the slots fit, and fails only otherwise. -/
theorem Scope.build_spec (functions : Functions) (natives : Resolver) (name : String) (params : List String) (position : Position)
    (body : List Node) (keyed : ∀ node ∈ Node.occurrencesAll false body, isKeyed node) :
    match Scope.build functions natives name params position body with
    | .ok scope => scope.Serves functions natives params body
    | .error fault =>
        (∃ node ∈ Node.occurrencesAll false body, fault = unresolvedFault node ∧
          ¬isResolved functions natives (isVariable params body) node) ∨
        (fault = .detailed .syntaxError position ("too many slots in " ++ name) ∧
          maxOperand < slotCount functions natives params body) := by
  unfold Scope.build
  simp only [Node.foldAll_eq_foldl, Scope.foldl_declareNode]
  generalize declaredEq : List.foldl Scope.declare (List.foldl Scope.declare {} params)
    ((Node.occurrencesAll false body).filterMap Node.assigned?) = declared
  have declaredFold : declared = (scopeVariables params body).foldl Scope.declare {} := by
    rw [← declaredEq, scopeVariables, List.foldl_append]
  have declaredHolds : declared.HoldsVariables (scopeVariables params body) := by
    rw [declaredFold]
    simpa using holdsVariables_empty.declareAll (scopeVariables params body)
  have bound : ∀ other, declared.variablePlaces.contains other = isVariable params body other := by
    intro other
    rw [Bool.eq_iff_iff, declaredHolds.indexes.contains_iff, declaredHolds.mem_iff, isVariable,
      List.contains_iff_mem]
  have boundEq : declared.variablePlaces.contains = isVariable params body := funext bound
  have startConstants : declared.HoldsConstants [] := by
    rcases declareAll_constants (scopeVariables params body) {} with ⟨constants, places⟩
    rw [← declaredFold] at constants places
    rcases holdsConstants_empty with ⟨keys, indexes, sizes, mem_iff, kept⟩
    exact ⟨keys, by rw [places]; exact indexes, by rw [constants]; exact sizes, mem_iff,
      by rw [constants]; exact kept⟩
  have scopeEq := foldl_visit_scope functions natives (Node.occurrencesAll false body) keyed
    { scope := declared }
  have faultEq := foldl_visit_fault functions natives (Node.occurrencesAll false body) keyed
    { scope := declared } rfl
  simp only [boundEq] at scopeEq faultEq
  generalize draftEq : List.foldl (ScopeDraft.visit functions natives) { scope := declared }
    (Node.occurrencesAll false body) = draft at scopeEq faultEq
  have holdsVariables : draft.scope.HoldsVariables (scopeVariables params body) := by
    rcases addConstants_variables (scopeConstants functions natives params body) declared with
      ⟨locals, places⟩
    constructor
    · rw [scopeEq]
      exact locals ▸ places ▸ declaredHolds.indexes
    · rw [scopeEq]
      exact locals ▸ declaredHolds.mem_iff
  have holdsConstants :
      draft.scope.HoldsConstants (scopeConstants functions natives params body) := by
    rw [scopeEq]
    exact startConstants.addConstants _
  cases noted : draft.fault with
  | some fault =>
      simp only [noted] at faultEq ⊢
      exact .inl faultEq
  | none =>
      simp only [noted] at faultEq ⊢
      by_cases tooMany : maxOperand < draft.scope.constants.size + draft.scope.locals.size
      · simp only [tooMany, if_true]
        rw [holdsConstants.size_eq, holdsVariables.size_eq] at tooMany
        exact .inr ⟨trivial, tooMany⟩
      · simp only [tooMany, if_false]
        have sameLocals : draft.scope.locals = declared.locals := by
          rw [scopeEq, (addConstants_variables _ declared).1]
        refine ⟨faultEq, holdsVariables, holdsConstants, by omega, ?_, ?_⟩
        · rw [sameLocals, declaredFold]
          exact declareAll_ordered _ holdsVariables_empty rfl
        intro distinct
        have first := declareAll_locals_of_nodup params holdsVariables_empty distinct (by simp)
        have more := declareAll_extends ((Node.occurrencesAll false body).filterMap Node.assigned?)
          (params.foldl Scope.declare {})
        rw [first, declaredEq] at more
        rw [sameLocals]
        simpa using more

end Building

end Code

end Lehce
