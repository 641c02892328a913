import Lehce.Proofs.Code.Linkage

/-!
# Well-scoped programs

What a program must satisfy to be compiled, said of its tree alone: names of functions
are distinct, every name stands for something, calls pass as many arguments as is known
to be right, and neither a scope nor the code is too large. `Violates` pairs each of
these conditions with the faults that tell of it.
-/

namespace Lehce.Code

/-- The statements of one scope with its parameters; the name and position are for its faults. -/
structure ScopeText where
  name : String
  params : List String
  position : Position
  body : List Node

/-- Whether a name is a variable of a scope. -/
def ScopeText.binds (text : ScopeText) : String → Bool := isVariable text.params text.body

/-- The nodes that stand in a scope. -/
def ScopeText.nodes (text : ScopeText) : List Node := Node.occurrencesAll false text.body

/-- The scope of a definition. -/
def Definition.text (definition : Definition) : ScopeText :=
  ⟨definition.name, definition.params, definition.bodyPosition, definition.body⟩

/-- The scope of the top level. -/
def topText (program : Program) : ScopeText := ⟨"", [], program.position, program.items⟩

/-- All scopes of a program: the top level and each function. -/
def scopeTexts (program : Program) : List ScopeText :=
  topText program :: (definitions program).map Definition.text

/-- The names of all functions of a program. -/
def functionNames (program : Program) : List String := (definitions program).map (·.name)

/-- A name is a variable of its scope, or a function, or a native function. -/
def IsKnown (natives : Resolver) (names : List String) (bound : String → Bool) : Node → Prop
  | .symbol _ name => bound name = true ∨ name ∈ names ∨ (natives name).isSome = true
  | .path _ parts => (natives (pathName parts)).isSome = true
  | _ => True

instance (natives : Resolver) (names : List String) (bound : String → Bool) :
    DecidablePred (IsKnown natives names bound) := fun node => by
  unfold IsKnown
  split <;> infer_instance

/-- A call by the name of a function passes as many arguments as the function takes. -/
def PassesArity (found : List Definition) (bound : String → Bool) : Node → Prop
  | .call _ (.symbol _ name) args _ =>
    bound name = false → ∀ definition ∈ found, definition.name = name →
      definition.params.length = args.length
  | _ => True

instance (found : List Definition) (bound : String → Bool) :
    DecidablePred (PassesArity found bound) := fun node => by
  unfold PassesArity
  split <;> infer_instance

/-- A call passes no more arguments than fit into a byte. -/
def PassesFew : Node → Prop
  | .call _ _ args _ => args.length ≤ 255
  | _ => True

instance : DecidablePred PassesFew := fun node => by
  unfold PassesFew
  split <;> infer_instance

/-- The keys of the constants that a node needs in its scope. -/
def constantKeys (natives : Resolver) (names : List String) (bound : String → Bool) :
    Node → List ConstantKey
  | .literal _ value => (ConstantKey.ofDatum? value).toList
  | .nothing _ => [.empty]
  | .dict _ entries => entries.map fun entry => .text entry.1
  | .symbol _ name =>
    if bound name then []
    else if name ∈ names then [.function name false]
    else (natives name).toList.map fun full => .function full true
  | .path _ parts => (natives (pathName parts)).toList.map fun full => .function full true
  | _ => []

/-- How many constants and variables a scope has. -/
def ScopeText.slots (natives : Resolver) (names : List String) (text : ScopeText) : Nat :=
  (text.nodes.flatMap (constantKeys natives names text.binds)).dedup.length +
    (scopeVariables text.params text.body).dedup.length

/-- The programs that can be compiled. -/
@[mk_iff]
structure WellScoped (natives : Resolver) (program : Program) : Prop where
  distinct : (functionNames program).Nodup
  known : ∀ text ∈ scopeTexts program, ∀ node ∈ text.nodes,
    IsKnown natives (functionNames program) text.binds node
  arity : ∀ text ∈ scopeTexts program, ∀ node ∈ text.nodes,
    PassesArity (definitions program) text.binds node
  few : ∀ text ∈ scopeTexts program, ∀ node ∈ text.nodes, PassesFew node
  slots : ∀ text ∈ scopeTexts program, text.slots natives (functionNames program) ≤ 65535
  size : program.codeSize ≤ 65535

instance (natives : Resolver) (program : Program) : Decidable (WellScoped natives program) :=
  decidable_of_iff' _ (wellScoped_iff natives program)

/-- A fault tells of a condition that a program does not satisfy. -/
inductive Violates (natives : Resolver) (program : Program) : Fault → Prop where
  | distinct {definition : Definition} (member : definition ∈ definitions program)
      (repeated : ¬(functionNames program).Nodup) :
      Violates natives program (duplicateFault definition)
  | known {text : ScopeText} {node : Node} (scope : text ∈ scopeTexts program)
      (member : node ∈ text.nodes)
      (unknown : ¬IsKnown natives (functionNames program) text.binds node) :
      Violates natives program (unresolvedFault node)
  | arity {text : ScopeText} {node : Node} (scope : text ∈ scopeTexts program)
      (member : node ∈ text.nodes)
      (differs : ¬PassesArity (definitions program) text.binds node) (position : Position)
      (detail : String) :
      Violates natives program (.detailed .argumentCountMismatch position detail)
  | few {text : ScopeText} {node : Node} (scope : text ∈ scopeTexts program)
      (member : node ∈ text.nodes) (many : ¬PassesFew node) (position : Position)
      (detail : String) :
      Violates natives program (.detailed .functionCallSyntaxNotValid position detail)
  | slots {text : ScopeText} (scope : text ∈ scopeTexts program)
      (many : 65535 < text.slots natives (functionNames program)) :
      Violates natives program
        (.detailed .syntaxError text.position ("too many slots in " ++ text.name))
  | size (large : 65535 < program.codeSize) (position : Position) {detail : String}
      (told : detail ∈ ["list too long", "dict too long", "program too large"]) :
      Violates natives program (.detailed .syntaxError position detail)

theorem Violates.not_wellScoped {natives : Resolver} {program : Program} {fault : Fault}
    (violates : Violates natives program fault) : ¬WellScoped natives program := by
  intro wellScoped
  cases violates with
  | distinct member repeated => exact repeated wellScoped.distinct
  | known scope member unknown => exact unknown (wellScoped.known _ scope _ member)
  | arity scope member differs => exact differs (wellScoped.arity _ scope _ member)
  | few scope member many => exact many (wellScoped.few _ scope _ member)
  | slots scope many => exact absurd (wellScoped.slots _ scope) (by omega)
  | size large => exact absurd wellScoped.size (by omega)

section Table

variable {functions : Functions} {found : List Definition} {natives : Resolver}
  {bound : String → Bool}

/-- The key of what a name stands for is that of a function, or else that of a native one. -/
theorem resolveFunction_key (natives : Resolver) (lists : functions.Lists found)
    (name : String) :
    (resolveFunction functions natives name).map (·.1) =
      if name ∈ found.map (·.name) then some (.function name false)
      else (natives name).map fun full => .function full true := by
  have isSome := lists.isSome_find? name
  unfold resolveFunction
  cases find : functions.find? name with
  | some ref =>
      rw [find] at isSome
      have listed : name ∈ found.map (·.name) := by simpa using isSome.symm
      simp only [listed, if_true]
      rfl
  | none =>
      rw [find] at isSome
      have absent : name ∉ found.map (·.name) := by simpa using isSome.symm
      simp only [absent, if_false, resolveNative, Option.map_map]
      rfl

theorem isResolved_iff (lists : functions.Lists found) (node : Node) :
    isResolved functions natives bound node = true ↔
      IsKnown natives (found.map (·.name)) bound node := by
  cases node with
  | symbol position name =>
      have key := congrArg Option.isSome (resolveFunction_key natives lists name)
      rw [Option.isSome_map] at key
      simp only [isResolved, IsKnown, Bool.or_eq_true, key]
      split
      · rename_i listed
        simp [listed]
      · rename_i absent
        simp only [absent, false_or, Option.isSome_map]
  | path position parts =>
      simp [isResolved, IsKnown, resolveNative]
  | _ => simp [isResolved, IsKnown]

theorem nodeConstants_keys (lists : functions.Lists found) (node : Node) :
    (nodeConstants functions natives bound node).map (·.1) =
      constantKeys natives (found.map (·.name)) bound node := by
  cases node with
  | literal position value =>
      simp only [nodeConstants, constantKeys, List.map_map]
      exact List.map_id _
  | dict position entries => simp [nodeConstants, constantKeys]
  | symbol position name =>
      have key := congrArg Option.toList (resolveFunction_key natives lists name)
      rw [Option.toList_map] at key
      simp only [nodeConstants, constantKeys]
      by_cases free : bound name
      · simp [free]
      · simp only [free, Bool.false_eq_true, if_false, List.map_map]
        refine key.trans ?_
        split
        · rfl
        · rw [Option.toList_map]
  | path position parts =>
      simp only [nodeConstants, constantKeys, resolveNative, Option.toList_map, List.map_map]
      rfl
  | _ => rfl

theorem slotCount_eq (lists : functions.Lists found) (text : ScopeText) :
    slotCount functions natives text.params text.body =
      text.slots natives (found.map (·.name)) := by
  rw [slotCount, ScopeText.slots, scopeConstants, List.map_flatMap]
  have keys : (fun node => (nodeConstants functions natives (isVariable text.params text.body)
      node).map (·.1)) = constantKeys natives (found.map (·.name)) text.binds :=
    funext fun node => nodeConstants_keys lists node
  rw [keys]
  rfl

theorem arityFits_iff (lists : functions.Lists found) {position : Position} {callee : Node}
    {args : List Node} {used : Bool} :
    arityFits functions bound callee args.length = true ↔
      PassesArity found bound (.call position callee args used) := by
  cases callee with
  | symbol calleePosition name =>
      simp only [arityFits, PassesArity, Bool.or_eq_true]
      cases free : bound name with
      | true => simp
      | false =>
          simp only [Bool.false_eq_true, false_or, forall_const]
          constructor
          · intro fits definition member sameName
            rcases List.mem_iff_getElem?.1 member with ⟨number, listed⟩
            rw [← sameName, lists.find? listed] at fits
            simp only [definitionRef, Option.all_some, beq_iff_eq] at fits
            omega
          · intro all
            cases find : functions.find? name with
            | none => rfl
            | some ref =>
                have listed : name ∈ found.map (·.name) := by
                  by_contra absent
                  rw [(lists.find?_eq_none_iff name).2 absent] at find
                  cases find
                rcases List.mem_map.1 listed with ⟨definition, member, sameName⟩
                rcases List.mem_iff_getElem?.1 member with ⟨number, at_⟩
                have known := lists.find? at_
                rw [sameName, find] at known
                cases known
                have same := all definition member sameName
                simp only [definitionRef, Option.all_some, beq_iff_eq]
                omega
  | _ => simp [arityFits, PassesArity]

theorem callMisfit?_eq_none_iff (lists : functions.Lists found) (node : Node) :
    callMisfit? functions bound node = none ↔ PassesArity found bound node ∧ PassesFew node := by
  cases node with
  | call position callee args used =>
      rw [← arityFits_iff lists, callMisfit?]
      simp only [PassesFew]
      split
      · rename_i fits
        split
        · rename_i many
          simp [fits]
          omega
        · rename_i few
          simp [fits]
          omega
      · rename_i differs
        simp [differs]
  | _ => simp [callMisfit?, PassesArity, PassesFew]

/-- A call that does not fit passes a wrong number of arguments, or too many. -/
theorem callMisfit?_eq_some (lists : functions.Lists found) {node : Node} {kind : Fault.Kind}
    (misfit : callMisfit? functions bound node = some kind) :
    (kind = .argumentCountMismatch ∧ ¬PassesArity found bound node) ∨
      (kind = .functionCallSyntaxNotValid ∧ ¬PassesFew node) := by
  cases node with
  | call position callee args used =>
      rw [callMisfit?] at misfit
      split at misfit
      · split at misfit
        · rename_i many
          cases misfit
          exact .inr ⟨rfl, by simp only [PassesFew]; omega⟩
        · cases misfit
      · rename_i differs
        cases misfit
        exact .inl ⟨rfl, fun passes => differs ((arityFits_iff lists).2 passes)⟩
  | _ => simp [callMisfit?] at misfit

end Table

end Lehce.Code
