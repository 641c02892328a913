import Lehce.Proofs.Code.Extension
import Lehce.Proofs.Code.ScopeLayout

/-!
# How emissions end

`Emits blamed action before post` says how an emission ends: in a state that satisfies
`post`, or with a blamed fault. The laws here compute it for the small actions that
emission is made of. The look-ups of slots succeed where the scope answers what a node
refers to, and the entries that emission records do not change what they find.
-/

namespace Lehce.Code

variable {α β : Type} {blamed : Fault → Prop}

/-- An emission ends in a state that satisfies `post`, or with a fault of a blamed kind. -/
def Emits (blamed : Fault → Prop) (action : Emit α) (before : Emission)
    (post : α → Emission → Prop) : Prop :=
  match action before with
  | .ok result after => post result after
  | .error (.fault fault) _ => blamed fault
  | .error .missingExpression _ => False

namespace Emits

theorem mono {action : Emit α} {before : Emission} {post weaker : α → Emission → Prop}
    (emits : Emits blamed action before post)
    (implies : ∀ result after, post result after → weaker result after) :
    Emits blamed action before weaker := by
  unfold Emits at emits ⊢
  split
  · rename_i result after ended
    rw [ended] at emits
    exact implies result after emits
  · rename_i fault ended
    rw [ended] at emits
    exact emits
  · rename_i ended
    rw [ended] at emits
    exact emits

@[simp]
theorem bind_iff (action : Emit α) (next : α → Emit β) (before : Emission)
    (post : β → Emission → Prop) :
    Emits blamed (action >>= next) before post ↔
      Emits blamed action before fun result after => Emits blamed (next result) after post := by
  unfold Emits
  simp only [bind, EStateM.bind]
  cases action before with
  | ok result after => rfl
  | error problem left => cases problem <;> rfl

@[simp]
theorem pure_iff (result : α) (before : Emission) (post : α → Emission → Prop) :
    Emits blamed (pure result) before post ↔ post result before := Iff.rfl

@[simp]
theorem get_iff (before : Emission) (post : Emission → Emission → Prop) :
    Emits blamed get before post ↔ post before before := Iff.rfl

@[simp]
theorem modify_iff (change : Emission → Emission) (before : Emission)
    (post : PUnit → Emission → Prop) :
    Emits blamed (modify change) before post ↔ post ⟨⟩ (change before) := Iff.rfl

@[simp]
theorem modifyGet_iff (change : Emission → α × Emission) (before : Emission)
    (post : α → Emission → Prop) :
    Emits blamed (modifyGet change) before post ↔ post (change before).1 (change before).2 :=
  Iff.rfl

@[simp]
theorem failAt_iff (kind : Fault.Kind) (position : Position) (detail : String)
    (before : Emission) (post : α → Emission → Prop) :
    Emits blamed (failAt kind position detail) before post ↔
      blamed (.detailed kind position detail) := Iff.rfl

@[simp]
theorem emit_iff (instruction : Instruction) (before : Emission) (post : PUnit → Emission → Prop) :
    Emits blamed (emit instruction) before post ↔ post ⟨⟩ (before.appended instruction) := by
  rw [emit_eq]
  rfl

@[simp]
theorem offset_iff (before : Emission) (post : Nat → Emission → Prop) :
    Emits blamed offset before post ↔ post before.draft.code.size before := Iff.rfl

@[simp]
theorem newLocation_iff (before : Emission) (post : Nat → Emission → Prop) :
    Emits blamed newLocation before post ↔ post before.draft.locations.size before.opened :=
  Iff.rfl

@[simp]
theorem emitJump_iff (jump : UInt16 → Instruction) (number : Nat) (before : Emission)
    (post : PUnit → Emission → Prop) :
    Emits blamed (emitJump jump number) before post ↔ post ⟨⟩ (before.jumped jump number) := by
  rw [emitJump, emit_eq]
  rfl

@[simp]
theorem mark_iff (number : Nat) (before : Emission) (post : PUnit → Emission → Prop) :
    Emits blamed (mark number) before post ↔
      post ⟨⟩ (before.marked number before.draft.code.size) := Iff.rfl

theorem withLoop_iff (start stop : Nat) (body : Emit PUnit) (before : Emission)
    (post : PUnit → Emission → Prop) :
    Emits blamed (withLoop start stop body) before post ↔
      Emits blamed body before.enclosed fun _ inner =>
        let behind := (inner.appended (.jump start.toUInt16)).marked stop
          (inner.appended (.jump start.toUInt16)).draft.code.size
        post ⟨⟩ (behind.left before start behind.draft.code.size) := by
  unfold withLoop
  simp only [bind_iff, modifyGet_iff, emit_iff, mark_iff, offset_iff, modify_iff]
  rfl

end Emits

/-- A function reference without its entry. -/
def signature (ref : FunctionRef) : FunctionRef := { ref with entry := 0 }

/-- Two tables have the same functions, whatever is known of their entries. -/
def Functions.Agrees (first second : Functions) : Prop :=
  ∀ name, (first.find? name).map signature = (second.find? name).map signature

namespace Functions

theorem find?_setEntry (functions : Functions) (name other : String) (entry : Nat) :
    ((functions.setEntry name entry).find? other).map signature =
      (functions.find? other).map signature := by
  unfold setEntry
  cases functions.places[name]? with
  | none => rfl
  | some place =>
      simp only [find?]
      cases functions.places[other]? with
      | none => rfl
      | some place' =>
          simp only [Option.bind_some, Array.getElem?_modify]
          split
          · simp only [Option.map_map]
            rfl
          · rfl

theorem agrees_setEntries (functions : Functions) (bodies : List Body) :
    (functions.setEntries bodies).Agrees functions := by
  induction bodies generalizing functions with
  | nil => exact fun name => rfl
  | cons body rest ih =>
      intro name
      exact (ih (functions.setEntry body.definition.name body.entry) name).trans
        (find?_setEntry functions body.definition.name name body.entry)

theorem Agrees.isSome_eq {first second : Functions} (agrees : first.Agrees second)
    (name : String) : (first.find? name).isSome = (second.find? name).isSome := by
  have same := congrArg Option.isSome (agrees name)
  simpa using same

/-- Tables that agree find functions of the same number of parameters and storage. -/
theorem Agrees.some {first second : Functions} (agrees : first.Agrees second) {name : String}
    {ref : FunctionRef} (found : first.find? name = some ref) :
    ∃ other, second.find? name = some other ∧ other.arity = ref.arity ∧
      other.storage = ref.storage := by
  have same := agrees name
  rw [found, Option.map_some] at same
  rcases Option.map_eq_some_iff.1 same.symm with ⟨other, foundOther, equal⟩
  simp only [signature, FunctionRef.mk.injEq] at equal
  exact ⟨other, foundOther, equal.2.2.2.2, equal.2.2.2.1⟩

theorem Agrees.key_eq {first second : Functions} (agrees : first.Agrees second)
    (natives : Resolver) (name : String) :
    (resolveFunction first natives name).map (·.1) =
      (resolveFunction second natives name).map (·.1) := by
  have same := agrees.isSome_eq name
  unfold resolveFunction
  cases one : first.find? name <;> cases two : second.find? name <;> simp_all

end Functions

/-- A key has a slot. -/
def Scope.HasSlot (scope : Scope) (key : ConstantKey) : Prop := ∃ slot, scope.constantSlot? key = some slot

/-- A scope has a slot for whatever a node refers to. -/
structure Scope.Answers (functions : Functions) (natives : Resolver) (scope : Scope)
    (node : Node) : Prop where
  names :
    match node with
    | .literal _ value => ∃ key, ConstantKey.ofDatum? value = some key ∧ scope.HasSlot key
    | .nothing _ => scope.HasSlot .empty
    | .dict _ entries => ∀ entry ∈ entries, scope.HasSlot (.text entry.1)
    | .symbol _ name => scope.variableSlot? name = none →
        ∃ found, resolveFunction functions natives name = some found ∧ scope.HasSlot found.1
    | .path _ parts =>
        ∃ found, resolveNative natives (pathName parts) = some found ∧ scope.HasSlot found.1
    | _ => True
  assigned : ∀ name, node.assigned? = some name → ∃ slot, scope.variableSlot? name = some slot

/-- A scope that was built answers everything that occurs in its statements. -/
theorem Scope.Serves.answers {functions : Functions} {natives : Resolver} {params : List String}
    {body : List Node} {scope : Scope} (serves : scope.Serves functions natives params body)
    {node : Node} (member : node ∈ Node.occurrencesAll false body) (keyed : isKeyed node) :
    scope.Answers functions natives node := by
  have slot : ∀ key value, (key, value) ∈
      nodeConstants functions natives (isVariable params body) node → scope.HasSlot key := by
    intro key value constant
    have listed : key ∈ (scopeConstants functions natives params body).map (·.1) :=
      List.mem_map.2 ⟨(key, value), List.mem_flatMap.2 ⟨node, member, constant⟩, rfl⟩
    rcases serves.holdsConstants.slot listed with ⟨place, found, _⟩
    exact ⟨place, found⟩
  have resolved := serves.resolved node member
  refine ⟨?_, ?_⟩
  · cases node with
    | literal position value =>
        rcases Option.isSome_iff_exists.1 keyed with ⟨key, keyEq⟩
        exact ⟨key, keyEq, slot key value (by simp [nodeConstants, keyEq])⟩
    | nothing position => exact slot .empty .empty (by simp [nodeConstants])
    | dict position entries =>
        intro entry entryMember
        refine slot (.text entry.1) (.text entry.1) ?_
        simp only [nodeConstants, List.mem_map]
        exact ⟨entry, entryMember, rfl⟩
    | symbol position name =>
        intro absent
        have free : isVariable params body name = false := by
          have notSome := serves.holdsVariables.slot_isSome_iff name
          rw [absent] at notSome
          simpa [isVariable] using notSome
        simp only [isResolved, free, Bool.false_or] at resolved
        rcases Option.isSome_iff_exists.1 resolved with ⟨found, foundEq⟩
        exact ⟨found, foundEq, slot found.1 (.function found.2)
          (by simp [nodeConstants, free, foundEq])⟩
    | path position parts =>
        rcases Option.isSome_iff_exists.1 resolved with ⟨found, foundEq⟩
        exact ⟨found, foundEq, slot found.1 (.function found.2)
          (by simp [nodeConstants, foundEq])⟩
    | _ => trivial
  · intro name assigned
    have declared : name ∈ scopeVariables params body :=
      List.mem_append_right _ (List.mem_filterMap.2 ⟨node, member, assigned⟩)
    exact Option.isSome_iff_exists.1 ((serves.holdsVariables.slot_isSome_iff name).2 declared)

/-- Whether a name is a variable of a scope. -/
def Scope.binds (scope : Scope) (name : String) : Bool := (scope.variableSlot? name).isSome

/-- Whether a call passes as many arguments as the function takes that it is known to name. -/
def arityFits (functions : Functions) (bound : String → Bool) (callee : Node) (count : Nat) :
    Bool :=
  match callee with
  | .symbol _ name => bound name || (functions.find? name).all fun ref => ref.arity == (count : Int)
  | _ => true

/-- The kind of fault that a call is because of its arguments. -/
def callMisfit? (functions : Functions) (bound : String → Bool) : Node → Option Fault.Kind
  | .call _ callee args _ =>
    if arityFits functions bound callee args.length then
      if 0xff < args.length then some .functionCallSyntaxNotValid else none
    else some .argumentCountMismatch
  | _ => none

section Slots

variable {functions : Functions} {place : Surroundings} {before : Emission}

theorem emits_loadConstant {position : Position} {value : Datum} {key : ConstantKey}
    (known : ConstantKey.ofDatum? value = some key) (hasSlot : place.scope.HasSlot key)
    (post : PUnit → Emission → Prop) :
    Emits blamed (loadConstant place position value) before post ↔
      post ⟨⟩ (before.appended (.load (literalAddress place.scope value))) := by
  rcases hasSlot with ⟨slot, found⟩
  simp [loadConstant, constantSlot, literalAddress, known, found]

theorem emits_functionSlot {position : Position} {name : String}
    {found : Option (ConstantKey × FunctionRef)} {constant : ConstantKey × FunctionRef}
    (resolved : found = some constant) (hasSlot : place.scope.HasSlot constant.1)
    (post : Nat → Emission → Prop) :
    Emits blamed (functionSlot place position name found) before post ↔
      ∃ slot, place.scope.constantSlot? constant.1 = some slot ∧ post slot before := by
  rcases hasSlot with ⟨slot, foundSlot⟩
  subst resolved
  simp [functionSlot, constantSlot, foundSlot]

theorem emits_symbolSlot {position : Position} {name : String}
    (agrees : before.functions.Agrees functions)
    (answers : place.scope.Answers functions place.natives (.symbol position name)) :
    Emits blamed (symbolSlot place position name) before fun slot after =>
      after = before ∧ slot.toUInt16 = nameAddress functions place (.symbol position name) := by
  unfold symbolSlot
  cases variableFound : place.scope.variableSlot? name with
  | some slot =>
      simp [nameAddress, variableAddress, variableFound]
  | none =>
      rcases answers.names variableFound with ⟨constant, resolved, slot, slotFound⟩
      have sameKey := agrees.key_eq place.natives name
      rw [resolved, Option.map_some] at sameKey
      rcases Option.map_eq_some_iff.1 sameKey with ⟨other, foundOther, keyEq⟩
      rw [← keyEq] at slotFound
      simp only [Emits.bind_iff, Emits.get_iff]
      rw [emits_functionSlot foundOther ⟨slot, slotFound⟩]
      refine ⟨slot, slotFound, rfl, ?_⟩
      simp [nameAddress, variableFound, foundAddress, resolved, ← keyEq, slotFound]

theorem emits_pathSlot {position : Position} {parts : List String}
    (answers : place.scope.Answers functions place.natives (.path position parts)) :
    Emits blamed (pathSlot place position parts) before fun slot after =>
      after = before ∧ slot.toUInt16 = nameAddress functions place (.path position parts) := by
  rcases answers.names with ⟨constant, resolved, slot, slotFound⟩
  unfold pathSlot
  rw [emits_functionSlot resolved ⟨slot, slotFound⟩]
  refine ⟨slot, slotFound, rfl, ?_⟩
  simp [nameAddress, foundAddress, resolved, slotFound]

theorem emits_assignedSlot {position : Position} {name : String}
    (declared : ∃ slot, place.scope.variableSlot? name = some slot) :
    Emits blamed (assignedSlot place position name) before fun slot after =>
      after = before ∧ slot.toUInt16 = variableAddress place.scope name := by
  rcases declared with ⟨slot, found⟩
  simp [assignedSlot, variableAddress, found]

theorem emits_calleeSlot {position : Position} {callee : Node} {count : Nat}
    (named : callee.IsName) (agrees : before.functions.Agrees functions)
    (answers : place.scope.Answers functions place.natives callee)
    (blames : arityFits functions place.scope.binds callee count = false →
      ∀ detail, blamed (.detailed .argumentCountMismatch position detail)) :
    Emits blamed (calleeSlot place position count callee) before fun slot after =>
      after = before ∧ slot.toUInt16 = nameAddress functions place callee ∧
        arityFits functions place.scope.binds callee count = true := by
  cases named with
  | path calleePosition parts =>
      refine (emits_pathSlot answers).mono ?_
      rintro slot after ⟨same, address⟩
      exact ⟨same, address, rfl⟩
  | symbol calleePosition name =>
      have found : Emits blamed (symbolSlot place calleePosition name) before _ :=
        emits_symbolSlot agrees answers
      have fitting (fits : arityFits functions place.scope.binds (.symbol calleePosition name)
          count = true) :
          Emits blamed (symbolSlot place calleePosition name) before fun slot after =>
            after = before ∧
              slot.toUInt16 = nameAddress functions place (.symbol calleePosition name) ∧
              arityFits functions place.scope.binds (.symbol calleePosition name) count = true :=
        found.mono fun slot after ⟨same, address⟩ => ⟨same, address, fits⟩
      simp only [calleeSlot]
      by_cases free : (place.scope.variableSlot? name).isNone
      · have unbound : place.scope.binds name = false := by
          simpa [Scope.binds] using free
        simp only [free, if_true, Emits.bind_iff, Emits.get_iff]
        cases known : before.functions.find? name with
        | none =>
            refine fitting ?_
            have absent : functions.find? name = none := by
              simpa [known] using (agrees.isSome_eq name).symm
            simp [arityFits, absent]
        | some ref =>
            rcases agrees.some known with ⟨other, foundOther, sameArity, _⟩
            by_cases differs : ref.arity ≠ count
            · have misfit : arityFits functions place.scope.binds (.symbol calleePosition name)
                  count = false := by
                simpa [arityFits, unbound, foundOther, sameArity] using differs
              simp only [differs, if_true, ne_eq, not_false_iff, Emits.bind_iff,
                Emits.failAt_iff]
              exact blames misfit _
            · have equal : ref.arity = count := by simpa using differs
              simp only [equal, ne_eq, not_true, if_false]
              exact fitting (by simp [arityFits, foundOther, sameArity, equal])
      · have bound : place.scope.binds name = true := by
          simpa [Scope.binds, Option.isSome_iff_ne_none] using free
        simp only [free, Bool.false_eq_true, if_false]
        exact fitting (by simp [arityFits, bound])

end Slots

end Lehce.Code
