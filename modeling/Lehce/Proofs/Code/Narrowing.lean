import Lehce.Proofs.Code.Acceptance
import Lehce.Proofs.Natives.Without

/-!
# Compilation with fewer native functions

A program that is compiled while only some native functions are known is compiled to the same
unit when more are known, if none of the names that were known stands for something else. And
a program that is no longer compiled when fewer are known uses a name that nothing defines.
-/

namespace Lehce.Code

variable {α β : Type}

/-- Where the first action ends without a fault, the second one ends in the same way. -/
def Refines (fewer more : Emit α) : Prop :=
  ∀ before result after, fewer before = .ok result after → more before = .ok result after

namespace Refines

theorem refl (action : Emit α) : Refines action action := fun _ _ _ ended => ended

theorem bind {fewer more : Emit α} {next later : α → Emit β} (first : Refines fewer more)
    (rest : ∀ result, Refines (next result) (later result)) :
    Refines (fewer >>= next) (more >>= later) := by
  intro before result after ended
  simp only [Bind.bind, EStateM.bind] at ended ⊢
  cases ran : fewer before with
  | error error left =>
      rw [ran] at ended
      cases ended
  | ok middle between =>
      rw [ran] at ended
      rw [first before middle between ran]
      exact rest middle between result after ended

/-- An action that follows another one in both. -/
theorem after (action : Emit α) {next later : α → Emit β}
    (rest : ∀ result, Refines (next result) (later result)) :
    Refines (action >>= next) (action >>= later) :=
  (refl action).bind rest

theorem failAt (kind : Fault.Kind) (position : Position) (detail : String) (action : Emit α) :
    Refines (failAt kind position detail) action := by
  rintro before result after ⟨⟩

theorem ite {condition : Prop} [Decidable condition] {fewer more other another : Emit α}
    (holds : Refines fewer more) (fails : Refines other another) :
    Refines (if condition then fewer else other) (if condition then more else another) := by
  split
  · exact holds
  · exact fails

theorem withLoop {fewer more : Emit PUnit} (start stop : Nat) (body : Refines fewer more) :
    Refines (withLoop start stop fewer) (withLoop start stop more) :=
  after _ fun _ => body.bind fun _ => refl _

end Refines

section Names

variable {fewer natives : Resolver} {name : String} {constant : ConstantKey × FunctionRef}

/-- A name that is known stands for the same function when more are known. -/
theorem resolveNative_of_narrows (narrows : Narrows fewer natives)
    (found : resolveNative fewer name = some constant) :
    resolveNative natives name = some constant := by
  unfold resolveNative at found ⊢
  rcases Option.map_eq_some_iff.1 found with ⟨full, known, rfl⟩
  rw [narrows name full known, Option.map_some]

theorem resolveFunction_of_narrows (narrows : Narrows fewer natives) {functions : Functions}
    (found : resolveFunction functions fewer name = some constant) :
    resolveFunction functions natives name = some constant := by
  unfold resolveFunction at found ⊢
  cases own : functions.find? name with
  | some ref =>
      rw [own] at found
      exact found
  | none =>
      rw [own] at found
      exact resolveNative_of_narrows narrows found

end Names

/-- Surroundings in which only some native functions are known. -/
def Surroundings.narrowed (place : Surroundings) (fewer : Resolver) : Surroundings :=
  { place with natives := fewer }

section Emission

variable {fewer : Resolver} {place : Surroundings}

theorem refines_functionSlot (place : Surroundings) (position : Position) (name : String)
    {found known : Option (ConstantKey × FunctionRef)}
    (same : ∀ constant, found = some constant → known = some constant) :
    Refines (functionSlot (place.narrowed fewer) position name found)
      (functionSlot place position name known) := by
  cases found with
  | none => exact .failAt _ _ _ _
  | some constant =>
      rw [same constant rfl]
      exact .refl _

theorem refines_symbolSlot (narrows : Narrows fewer place.natives) (position : Position)
    (name : String) :
    Refines (symbolSlot (place.narrowed fewer) position name) (symbolSlot place position name) := by
  have scope : (place.narrowed fewer).scope = place.scope := rfl
  rw [symbolSlot, symbolSlot, scope]
  cases place.scope.variableSlot? name with
  | some slot => exact .refl _
  | none =>
      refine .after _ fun emission => ?_
      exact refines_functionSlot place position name
        fun _ found => resolveFunction_of_narrows narrows found

theorem refines_pathSlot (narrows : Narrows fewer place.natives) (position : Position)
    (parts : List String) :
    Refines (pathSlot (place.narrowed fewer) position parts) (pathSlot place position parts) :=
  refines_functionSlot place position (pathName parts)
    fun _ found => resolveNative_of_narrows narrows found

theorem refines_calleeSlot (narrows : Narrows fewer place.natives) (position : Position)
    (count : Nat) (callee : Node) :
    Refines (calleeSlot (place.narrowed fewer) position count callee)
      (calleeSlot place position count callee) := by
  cases callee with
  | symbol calleePosition name =>
      have named := refines_symbolSlot narrows calleePosition name
      simp only [calleeSlot]
      change Refines (if (place.scope.variableSlot? name).isNone then _ else _) _
      split
      · refine .after _ fun emission => ?_
        split
        · split
          · exact .after _ fun _ => named
          · exact named
        · exact named
      · exact named
  | path calleePosition parts => exact refines_pathSlot narrows calleePosition parts
  | _ => exact .refl _

mutual

/-- Whatever is emitted for an expression is emitted when more native functions are known. -/
theorem refines_expression (narrows : Narrows fewer place.natives) : (node : Node) →
    Refines (emitExpression (place.narrowed fewer) node) (emitExpression place node)
  | .literal .. | .nothing .. => by
      simp only [emitExpression]
      exact .refl _
  | .symbol position name => by
      simp only [emitExpression]
      exact (refines_symbolSlot narrows position name).bind fun _ => .refl _
  | .path position parts => by
      simp only [emitExpression]
      exact (refines_pathSlot narrows position parts).bind fun _ => .refl _
  | .binary _ left op right => by
      simp only [emitExpression]
      split
      · exact .refl _
      · exact (refines_expression narrows left).bind fun _ =>
          (refines_expression narrows right).bind fun _ => .refl _
  | .control _ left op right => by
      have first := refines_expression narrows left
      have second := refines_expression narrows right
      have jumping : ∀ stop, Refines
          (emitJump .compare stop >>= fun _ => emit .pop >>= fun _ =>
            emitExpression (place.narrowed fewer) right >>= fun _ => mark stop)
          (emitJump .compare stop >>= fun _ => emit .pop >>= fun _ =>
            emitExpression place right >>= fun _ => mark stop) :=
        fun stop => .after _ fun _ => .after _ fun _ => second.bind fun _ => .refl _
      simp only [emitExpression]
      split
      · exact first.bind fun _ => second.bind fun _ => .refl _
      · refine .ite
          (.after _ fun _ => first.bind fun _ => .after _ fun stop => .after _ fun _ => ?_)
          (first.bind fun _ => .after _ fun stop => .after _ fun _ => ?_)
        · exact .ite (.after _ fun _ => jumping stop) (jumping stop)
        · exact .ite (.after _ fun _ => jumping stop) (jumping stop)
  | .call position callee args _ => by
      simp only [emitExpression]
      refine (refines_calleeSlot narrows position args.length callee).bind fun slot => ?_
      split
      · exact .after _ fun _ => (refines_expressions narrows args).bind fun _ => .refl _
      · exact (refines_expressions narrows args).bind fun _ => .refl _
  | .list _ items => by
      simp only [emitExpression]
      exact (refines_expressions narrows items).bind fun _ => .refl _
  | .dict position entries => by
      simp only [emitExpression]
      exact (refines_entries narrows position entries).bind fun _ => .refl _
  | .prefixed _ op operand used => by
      simp only [emitExpression]
      split
      · exact .refl _
      · exact .refl _
      · exact (refines_expression narrows operand).bind fun _ => .refl _
      · exact (refines_expression narrows operand).bind fun _ => .refl _
      · exact refines_expression narrows operand
      · exact .refl _
  | .suffixed .. => by
      simp only [emitExpression]
      exact .refl _
  | .index _ body key => by
      simp only [emitExpression]
      exact (refines_expression narrows body).bind fun _ =>
        (refines_expression narrows key).bind fun _ => .refl _
  | .assignment .. | .block .. | .function .. | .branch .. | .returns .. | .endlessLoop ..
  | .whileLoop .. | .breaks .. | .continues .. => by
      simp only [emitExpression]
      exact .refl _

theorem refines_expressions (narrows : Narrows fewer place.natives) : (nodes : List Node) →
    Refines (emitExpressions (place.narrowed fewer) nodes) (emitExpressions place nodes)
  | [] => by
      simp only [emitExpressions]
      exact .refl _
  | node :: rest => by
      simp only [emitExpressions]
      exact (refines_expression narrows node).bind fun _ => refines_expressions narrows rest

theorem refines_entries (narrows : Narrows fewer place.natives) (position : Position) :
    (entries : List (String × Node)) →
    Refines (emitEntries (place.narrowed fewer) position entries)
      (emitEntries place position entries)
  | [] => by
      simp only [emitEntries]
      exact .refl _
  | (key, value) :: rest => by
      simp only [emitEntries]
      exact .after _ fun _ => (refines_expression narrows value).bind fun _ =>
        refines_entries narrows position rest

end

mutual

/-- Whatever is emitted for a statement is emitted when more native functions are known. -/
theorem refines_statement (place : Surroundings) (narrows : Narrows fewer place.natives) :
    (node : Node) →
    Refines (emitStatement (place.narrowed fewer) node) (emitStatement place node)
  | .assignment _ (.symbol position name) op value => by
      have assigned := refines_expression narrows value
      simp only [emitStatement]
      refine .after _ fun slot => ?_
      exact .ite
        (.after _ fun _ => assigned.bind fun _ => .ite (.after _ fun _ => .refl _) (.refl _))
        (assigned.bind fun _ => .ite (.after _ fun _ => .refl _) (.refl _))
  | .assignment _ (.index _ body key) op value => by
      have assigned := refines_expression narrows value
      simp only [emitStatement]
      refine (refines_expression narrows body).bind fun _ =>
        (refines_expression narrows key).bind fun _ => ?_
      exact .ite (.after _ fun _ => .after _ fun _ => assigned.bind fun _ =>
          .ite (.after _ fun _ => .refl _) (.refl _))
        (assigned.bind fun _ => .ite (.after _ fun _ => .refl _) (.refl _))
  | .assignment _ (.literal ..) .. | .assignment _ (.nothing ..) .. | .assignment _ (.path ..) ..
  | .assignment _ (.binary ..) .. | .assignment _ (.control ..) .. | .assignment _ (.call ..) ..
  | .assignment _ (.list ..) .. | .assignment _ (.dict ..) .. | .assignment _ (.prefixed ..) ..
  | .assignment _ (.suffixed ..) .. | .assignment _ (.assignment ..) ..
  | .assignment _ (.block ..) .. | .assignment _ (.function ..) .. | .assignment _ (.branch ..) ..
  | .assignment _ (.returns ..) .. | .assignment _ (.endlessLoop ..) ..
  | .assignment _ (.whileLoop ..) .. | .assignment _ (.breaks ..) ..
  | .assignment _ (.continues ..) .. => by
      simp only [emitStatement]
      exact .refl _
  | .branch _ condition _ body otherwise => by
      simp only [emitStatement]
      refine (refines_expression narrows condition).bind fun _ => .after _ fun stop =>
        .after _ fun _ => (refines_statements _ narrows body).bind fun _ => ?_
      cases otherwise with
      | none => exact .refl _
      | some other =>
          exact .after _ fun _ => .after _ fun _ => .after _ fun _ =>
            (refines_statement _ narrows other).bind fun _ => .refl _
  | .whileLoop _ condition _ body => by
      have looped : Refines (emitStatements (place.looping.narrowed fewer) body)
          (emitStatements place.looping body) := refines_statements place.looping narrows body
      simp only [emitStatement]
      exact .after _ fun _ => .after _ fun _ => .withLoop _ _
        ((refines_expression narrows condition).bind fun _ => .after _ fun _ => looped)
  | .endlessLoop _ _ body => by
      have looped : Refines (emitStatements (place.looping.narrowed fewer) body)
          (emitStatements place.looping body) := refines_statements place.looping narrows body
      simp only [emitStatement]
      exact .after _ fun _ => .after _ fun _ => .withLoop _ _ looped
  | .breaks _ | .continues _ => by
      simp only [emitStatement]
      exact .refl _
  | .returns _ none => by
      simp only [emitStatement]
      exact .refl _
  | .returns _ (some value) => by
      have returned := refines_expression narrows value
      simp only [emitStatement]
      exact .ite (.after _ fun _ => returned.bind fun _ => .refl _)
        (returned.bind fun _ => .refl _)
  | .function position name _ _ body => by
      simp only [emitStatement]
      refine .after _ fun emission => ?_
      split
      · exact .refl _
      · rename_i ref _
        have inner := refines_statements
          { place with
            scope := place.scopes[ref.storage.toNat]?.getD {}
            inFunction := true
            inLoop := false } narrows body
        exact .after _ fun _ => .after _ fun _ => .after _ fun _ => .after _ fun _ =>
          inner.bind fun _ => .refl _
  | .block _ items => by
      simp only [emitStatement]
      exact refines_statements _ narrows items
  | .literal .. | .nothing .. | .symbol .. | .path .. | .binary .. | .control .. | .call ..
  | .list .. | .dict .. | .prefixed .. | .suffixed .. | .index .. => by
      simp only [emitStatement]
      exact (refines_expression narrows _).bind fun _ => .refl _

theorem refines_statements (place : Surroundings) (narrows : Narrows fewer place.natives) :
    (nodes : List Node) →
    Refines (emitStatements (place.narrowed fewer) nodes) (emitStatements place nodes)
  | [] => by
      simp only [emitStatements]
      exact .refl _
  | node :: rest => by
      simp only [emitStatements]
      exact (refines_statement _ narrows node).bind fun _ => refines_statements _ narrows rest

end

end Emission

section Scopes

variable {fewer natives : Resolver} {functions : Functions}

theorem resolve_of_same {draft : ScopeDraft} {position : Position} {name : String}
    {found known : Option (ConstantKey × FunctionRef)}
    (same : ∀ constant, found = some constant → known = some constant)
    (fine : (draft.resolve position name found).fault = none) :
    draft.resolve position name known = draft.resolve position name found := by
  cases found with
  | some constant => rw [same constant rfl]
  | none => cases noted : draft.fault <;> simp [ScopeDraft.resolve, noted] at fine

/-- Where a node adds no fault, it adds the same constants when more are known. -/
theorem visit_of_narrows (narrows : Narrows fewer natives) {draft : ScopeDraft} {node : Node}
    (fine : (draft.visit functions fewer node).fault = none) :
    draft.visit functions natives node = draft.visit functions fewer node := by
  cases node with
  | symbol position name =>
      simp only [ScopeDraft.visit] at fine ⊢
      split at fine
      · rename_i bound
        rw [if_pos bound, if_pos bound]
      · rename_i free
        rw [if_neg free, if_neg free]
        exact resolve_of_same (fun _ found => resolveFunction_of_narrows narrows found) fine
  | path position parts =>
      exact resolve_of_same (fun _ found => resolveNative_of_narrows narrows found) fine
  | _ => rfl

theorem foldl_visit_of_narrows (narrows : Narrows fewer natives) (nodes : List Node)
    {draft : ScopeDraft}
    (fine : (nodes.foldl (ScopeDraft.visit functions fewer) draft).fault = none) :
    nodes.foldl (ScopeDraft.visit functions natives) draft =
      nodes.foldl (ScopeDraft.visit functions fewer) draft := by
  induction nodes generalizing draft with
  | nil => rfl
  | cons node rest ih =>
      simp only [List.foldl_cons] at fine ⊢
      cases noted : (draft.visit functions fewer node).fault with
      | some fault =>
          rw [foldl_visit_fault_of_some functions fewer rest noted] at fine
          cases fine
      | none =>
          rw [visit_of_narrows narrows noted]
          exact ih fine

theorem build_of_narrows (narrows : Narrows fewer natives) {name : String} {params : List String}
    {position : Position} {body : List Node} {scope : Scope}
    (built : Scope.build functions fewer name params position body = .ok scope) :
    Scope.build functions natives name params position body = .ok scope := by
  unfold Scope.build at built ⊢
  simp only [Node.foldAll_eq_foldl] at built ⊢
  generalize Node.occurrencesAll false body = nodes at built ⊢
  split at built
  · cases built
  · rename_i fine
    rw [foldl_visit_of_narrows narrows nodes fine, fine]
    exact built

theorem foldlM_addScope_of_narrows (narrows : Narrows fewer natives) {found : List Definition}
    {scopes after : Array Scope}
    (added : found.foldlM (addScope functions fewer) scopes = .ok after) :
    found.foldlM (addScope functions natives) scopes = .ok after := by
  induction found generalizing scopes with
  | nil => exact added
  | cons definition rest ih =>
      rw [List.foldlM_cons, bind_eq_ok] at added ⊢
      rcases added with ⟨more, first, others⟩
      refine ⟨more, ?_, ih others⟩
      rw [addScope, bind_eq_ok] at first ⊢
      rcases first with ⟨scope, built, pushed⟩
      exact ⟨scope, build_of_narrows narrows built, pushed⟩

theorem collectScopes_of_narrows (narrows : Narrows fewer natives) {program : Program}
    {found : List Definition} {scopes : Array Scope}
    (collected : collectScopes functions fewer program found = .ok scopes) :
    collectScopes functions natives program found = .ok scopes := by
  rw [collectScopes_eq] at collected ⊢
  rw [bind_eq_ok] at collected ⊢
  rcases collected with ⟨top, topBuilt, others⟩
  exact ⟨top, build_of_narrows narrows topBuilt, foldlM_addScope_of_narrows narrows others⟩

theorem mapError_eq_ok {ε δ : Type} {result : Except ε α} {change : ε → δ} {value : α} :
    result.mapError change = .ok value ↔ result = .ok value := by
  cases result <;> simp [Except.mapError]

/-- A program that is compiled with some native functions is compiled alike with more. -/
theorem compile_of_narrows (narrows : Narrows fewer natives) {program : Program} {unit : Unit}
    (compiles : compile fewer program = .ok unit) : compile natives program = .ok unit := by
  unfold compile at compiles ⊢
  simp only [bind_eq_ok, mapError_eq_ok] at compiles ⊢
  rcases compiles with ⟨functions, collected, scopes, built, emission, ends, made⟩
  refine ⟨functions, collected, scopes, collectScopes_of_narrows narrows built, emission, ?_, made⟩
  unfold emitted at ends ⊢
  split at ends
  · rename_i result after ran
    cases ends
    have refines := refines_statements
      { natives, scopes, scope := scopes[0]?.getD {} } narrows program.items
    rw [refines { functions } result emission ran]
  · cases ends

end Scopes

section Refusals

variable {fewer natives : Resolver} {program : Program}

theorem constantKeys_subset (narrows : Narrows fewer natives) (names : List String)
    (bound : String → Bool) (node : Node) :
    constantKeys fewer names bound node ⊆ constantKeys natives names bound node := by
  have known : ∀ name, ((fewer name).toList.map fun full => ConstantKey.function full true) ⊆
      (natives name).toList.map fun full => .function full true := by
    intro name
    cases resolved : fewer name with
    | none => exact List.nil_subset _
    | some full => rw [narrows name full resolved]; exact List.Subset.refl _
  cases node with
  | symbol position name =>
      simp only [constantKeys]
      split
      · exact List.Subset.refl _
      · split
        · exact List.Subset.refl _
        · exact known name
  | path position parts => exact known (pathName parts)
  | _ => exact List.Subset.refl _

/-- A scope has no more slots when fewer native functions are known. -/
theorem slots_le_of_narrows (narrows : Narrows fewer natives) (names : List String)
    (text : ScopeText) : text.slots fewer names ≤ text.slots natives names := by
  have keys : text.nodes.flatMap (constantKeys fewer names text.binds) ⊆
      text.nodes.flatMap (constantKeys natives names text.binds) := by
    intro key member
    rcases List.mem_flatMap.1 member with ⟨node, inside, listed⟩
    exact List.mem_flatMap.2
      ⟨node, inside, constantKeys_subset narrows names text.binds node listed⟩
  have distinct : (text.nodes.flatMap (constantKeys fewer names text.binds)).dedup ⊆
      (text.nodes.flatMap (constantKeys natives names text.binds)).dedup := by
    intro key member
    exact List.mem_dedup.2 (keys (List.mem_dedup.1 member))
  have fewerKeys := (List.subperm_of_subset (List.nodup_dedup _) distinct).length_le
  unfold ScopeText.slots
  omega

/-- A well-scoped program can violate nothing but that names are known, when fewer are. -/
theorem Violates.kind_of_narrows (narrows : Narrows fewer natives)
    (wellScoped : WellScoped natives program) {fault : Fault}
    (violates : Violates fewer program fault) : fault.kind = .unresolvedSymbol := by
  cases violates with
  | distinct member repeated => exact absurd wellScoped.distinct repeated
  | known scope member unknown => rfl
  | arity scope member differs => exact absurd (wellScoped.arity _ scope _ member) differs
  | few scope member many => exact absurd (wellScoped.few _ scope _ member) many
  | slots scope many =>
      have fits := wellScoped.slots _ scope
      have fewerSlots := slots_le_of_narrows narrows (functionNames program) ‹_›
      omega
  | size large => exact absurd wellScoped.size (by omega)

/-- A program that fewer native functions are not enough for uses a name that is not known. -/
theorem unresolved_of_narrows (shaped : program.IsShaped Number.IsNumber)
    (narrows : Narrows fewer natives) {unit : Unit} {error : CompileError}
    (compiles : compile natives program = .ok unit)
    (refused : compile fewer program = .error error) :
    ∃ fault, error = .fault fault ∧ fault.kind = .unresolvedSymbol := by
  have spec := compile_spec natives shaped
  rw [compiles] at spec
  rcases spec with ⟨functions, top, rest, compiled⟩
  have fails := compile_spec fewer shaped
  rw [refused] at fails
  rcases fails with ⟨fault, same, violates⟩
  exact ⟨fault, same, violates.kind_of_narrows narrows (compiled.wellScoped shaped)⟩

end Refusals

end Lehce.Code
