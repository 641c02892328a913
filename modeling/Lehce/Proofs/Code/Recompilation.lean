import Lehce.Code.Context
import Lehce.Proofs.Code.Compiled

/-!
# Compilation into a used context

What a compilation makes of a context depends on the program and on the native functions of
the context, and on nothing that earlier compilations have left in it, wherever they failed.
When it succeeds, the context holds the unit that the program is compiled to.
-/

namespace Lehce.Code

namespace Context

variable {α : Type} {context : Context}

/-- What a compilation that does not fail makes of a context. -/
def outcome (action : Compilation α) (context : Context) : Except CompileError Context :=
  match action context with
  | .ok _ after => .ok after
  | .error error _ => .error error

/-- A context with some more scopes. -/
def withScopes (context : Context) (added : List NamedScope) : Context :=
  { context with scopes := context.scopes ++ added }

/-- Whether it fails or not, a compilation does not change the native functions. -/
def KeepsNatives (action : Compilation α) : Prop :=
  ∀ context, match action context with
    | .ok _ after => after.natives = context.natives
    | .error _ left => left.natives = context.natives

namespace KeepsNatives

theorem bind {β : Type} {action : Compilation α} {next : α → Compilation β}
    (keeps : KeepsNatives action) (later : ∀ result, KeepsNatives (next result)) :
    KeepsNatives (action >>= next) := by
  intro context
  have first := keeps context
  simp only [Bind.bind, EStateM.bind]
  cases ran : action context with
  | error error left =>
      rw [ran] at first
      exact first
  | ok result middle =>
      rw [ran] at first
      have second := later result middle
      simp only
      cases ends : next result middle with
      | error error left =>
          rw [ends] at second
          exact second.trans first
      | ok result after =>
          rw [ends] at second
          exact second.trans first

theorem forM {action : α → Compilation PUnit} (each : ∀ x, KeepsNatives (action x))
    (xs : List α) : KeepsNatives (xs.forM action) := by
  induction xs with
  | nil => exact fun context => rfl
  | cons x rest ih => exact (each x).bind fun _ => ih

end KeepsNatives

theorem addFunction_eq (definition : Definition) (context : Context) :
    addFunction definition context =
      match Code.addFunction context.functions definition with
      | .ok functions => .ok ⟨⟩ { context with functions }
      | .error fault => .error (.fault fault) context := by
  change (if context.functions.places.contains definition.name = true then throw _ >>= fun _ => _
    else _ : Compilation PUnit) context = _
  unfold Code.addFunction
  split <;> rfl

theorem addScope_eq (name : String) (params : List String) (position : Position)
    (body : List Node) (context : Context) :
    addScope name params position body context =
      match Scope.build context.functions context.natives name params position body with
      | .ok scope => .ok ⟨⟩ (context.withScopes [⟨name, params.length, scope⟩])
      | .error fault => .error (.fault fault) context := by
  have adds : addScope name params position body context =
      (match Scope.build context.functions context.natives name params position body with
      | .ok scope => set { context with
          scopes := context.scopes.push ⟨name, params.length, scope⟩ }
      | .error fault => throw (.fault fault) : Compilation PUnit) context := rfl
  rw [adds]
  cases Scope.build context.functions context.natives name params position body with
  | error fault => rfl
  | ok scope =>
      change EStateM.Result.ok PUnit.unit
        { context with scopes := context.scopes.push ⟨name, params.length, scope⟩ } = _
      simp [withScopes]

theorem checkCode_eq (program : Program) (context : Context) :
    checkCode program context =
      if maxOperand < context.draft.code.size then
        .error (.fault (.detailed .syntaxError program.position "program too large")) context
      else if !context.draft.unresolved.isEmpty then
        .error (.fault (.detailed .invalidJumpTarget program.position
          (toString context.draft.unresolved.length ++ " unresolved locations"))) context
      else .ok ⟨⟩ context := by
  change (if maxOperand < context.draft.code.size then throw _ >>= fun _ => _
    else if (!context.draft.unresolved.isEmpty) = true then throw _
      else pure ⟨⟩ : Compilation PUnit) context = _
  split
  · rfl
  · split <;> rfl

theorem keepsNatives_addFunction (definition : Definition) :
    KeepsNatives (addFunction definition) := by
  intro context
  rw [addFunction_eq]
  cases Code.addFunction context.functions definition with
  | error fault => rfl
  | ok functions => rfl

theorem keepsNatives_addScope (name : String) (params : List String) (position : Position)
    (body : List Node) : KeepsNatives (addScope name params position body) := by
  intro context
  rw [addScope_eq]
  cases Scope.build context.functions context.natives name params position body with
  | error fault => rfl
  | ok scope => rfl

theorem keepsNatives_emitProgram (program : Program) : KeepsNatives (emitProgram program) := by
  intro context
  simp only [emitProgram]
  generalize emitStatements _ program.items _ = emission
  cases emission with
  | error error emission => rfl
  | ok result emission => rfl

theorem keepsNatives_checkCode (program : Program) : KeepsNatives (checkCode program) := by
  intro context
  rw [checkCode_eq]
  by_cases large : maxOperand < context.draft.code.size
  · rw [if_pos large]
  · rw [if_neg large]
    by_cases pending : !context.draft.unresolved.isEmpty
    · rw [if_pos pending]
    · rw [if_neg pending]

theorem keepsNatives_filling (program : Program) : KeepsNatives (filling program) := by
  refine (KeepsNatives.forM keepsNatives_addFunction _).bind fun _ => ?_
  refine (keepsNatives_addScope "" [] program.position program.items).bind fun _ => ?_
  refine (KeepsNatives.forM (fun d : Definition =>
    keepsNatives_addScope d.name d.params d.bodyPosition d.body) _).bind fun _ => ?_
  exact (keepsNatives_emitProgram program).bind fun _ => keepsNatives_checkCode program

/-- A compilation first clears what is in the context. -/
theorem compilation_eq (program : Program) (context : Context) :
    compilation program context = filling program context.cleared := rfl

/-- A compilation leaves the native functions of a context as they are. -/
theorem natives_compile (context : Context) (program : Program) :
    (context.compile program).2.natives = context.natives := by
  have keeps := keepsNatives_filling program context.cleared
  rw [compile, compilation_eq]
  generalize filling program context.cleared = ended at keeps
  cases ended with
  | error error left => exact keeps
  | ok result after => exact keeps

theorem cleared_eq (context : Context) : context.cleared = { natives := context.natives } := by
  simp [cleared]

/-- What a compilation comes to depends on nothing in a context but its native functions. -/
theorem compile_congr {first second : Context} (same : first.natives = second.natives)
    (program : Program) : first.compile program = second.compile program := by
  rw [compile, compile, compilation_eq, compilation_eq, cleared_eq, cleared_eq, same]

section Outcome

theorem outcome_bind (action : Compilation PUnit) (next : Compilation PUnit) (context : Context) :
    outcome (action >>= fun _ => next) context = outcome action context >>= outcome next := by
  simp only [outcome, Bind.bind, EStateM.bind]
  cases action context with
  | error error left => rfl
  | ok result after => rfl

/-- The functions that are added one by one are those that are collected. -/
theorem outcome_addFunctions (found : List Definition) (context : Context) :
    outcome (found.forM addFunction) context =
      ((found.foldlM Code.addFunction context.functions).mapError .fault).map
        fun functions => { context with functions } := by
  induction found generalizing context with
  | nil => rfl
  | cons definition rest ih =>
      change outcome (addFunction definition >>= fun _ => rest.forM addFunction) context = _
      rw [outcome_bind, List.foldlM_cons, outcome, addFunction_eq]
      cases Code.addFunction context.functions definition with
      | error fault => rfl
      | ok functions => exact ih { context with functions }

/-- The scope of a definition with what is noted of it. -/
def namedScope (definition : Definition) (scope : Scope) : NamedScope :=
  ⟨definition.name, definition.params.length, scope⟩

theorem outcome_addScope (name : String) (params : List String) (position : Position)
    (body : List Node) (context : Context) :
    outcome (addScope name params position body) context =
      ((Scope.build context.functions context.natives name params position body).mapError
        .fault).map fun scope => context.withScopes [⟨name, params.length, scope⟩] := by
  rw [outcome, addScope_eq]
  cases Scope.build context.functions context.natives name params position body with
  | error fault => rfl
  | ok scope => rfl

/-- The scopes that are added one by one are those that are collected. -/
theorem outcome_addScopes (found : List Definition) (context : Context) :
    match outcome (found.forM fun d => addScope d.name d.params d.bodyPosition d.body) context with
    | .ok after => ∃ added : List Scope, added.length = found.length ∧
        after = context.withScopes (List.zipWith namedScope found added) ∧
        ∀ scopes, found.foldlM (Code.addScope context.functions context.natives) scopes =
          .ok (scopes ++ added)
    | .error error => ∃ fault, error = .fault fault ∧
        ∀ scopes, found.foldlM (Code.addScope context.functions context.natives) scopes =
          .error fault := by
  induction found generalizing context with
  | nil => exact ⟨[], rfl, by simp [withScopes], fun scopes => by simp [pure, Except.pure]⟩
  | cons definition rest ih =>
      change match outcome (addScope definition.name definition.params definition.bodyPosition
        definition.body >>= fun _ => rest.forM fun d =>
          addScope d.name d.params d.bodyPosition d.body) context with
        | .ok after => _
        | .error error => _
      rw [outcome_bind, outcome_addScope]
      simp only [List.foldlM_cons, Code.addScope]
      cases built : Scope.build context.functions context.natives definition.name
        definition.params definition.bodyPosition definition.body with
      | error fault => exact ⟨fault, rfl, fun scopes => rfl⟩
      | ok scope =>
          have later := ih (context.withScopes [namedScope definition scope])
          simp only [Except.mapError, Except.map, Bind.bind, Except.bind]
          change match outcome _ (context.withScopes [namedScope definition scope]) with
            | .ok after => _
            | .error error => _
          generalize outcome _ (context.withScopes [namedScope definition scope]) = ended at later
          cases ended with
          | error error =>
              rcases later with ⟨fault, same, fails⟩
              exact ⟨fault, same, fun scopes => fails (scopes.push scope)⟩
          | ok after =>
              rcases later with ⟨added, count, same, collects⟩
              refine ⟨scope :: added, by simp [count], ?_, fun scopes => ?_⟩
              · rw [same]
                simp [withScopes, List.zipWith_cons_cons]
              · refine (collects (scopes.push scope)).trans ?_
                simp

theorem outcome_emitProgram (program : Program) (context : Context) :
    outcome (emitProgram program) context =
      (emitted (emitStatements
        { natives := context.natives, scopes := context.scopes.map (·.scope),
          scope := (context.scopes.map (·.scope))[0]?.getD {} } program.items)
        { draft := context.draft, functions := context.functions }).map context.withEmission := by
  simp only [outcome, emitProgram, emitted]
  generalize emitStatements _ program.items _ = emission
  cases emission with
  | error error left => rfl
  | ok result after => rfl

/-- The scopes of a program with what is noted of them. -/
def namedScopes (program : Program) (scopes : List Scope) : List NamedScope :=
  List.zipWith (fun named scope => ⟨named.1, named.2, scope⟩) (storageNames program) scopes

theorem map_scope_namedScopes (program : Program) (top : Scope) {rest : List Scope}
    (count : rest.length = (definitions program).length) :
    (namedScopes program (top :: rest)).map (·.scope) = top :: rest := by
  apply List.ext_getElem
  · simp [namedScopes, storageNames, count]
  · intro place inside _
    simp [namedScopes]

/-- A context that holds a finished emission is checked, and then holds the unit. -/
theorem outcome_checkCode (program : Program) (natives : Resolver) (scopes : List Scope)
    (emission : Emission) :
    (outcome (checkCode program)
      { natives, draft := emission.draft, functions := emission.functions,
        scopes := (namedScopes program scopes).toArray }).map unit =
      finish program scopes emission := by
  rw [outcome, checkCode_eq, finish]
  by_cases large : maxOperand < emission.draft.code.size
  · rw [if_pos large, if_pos large]
    rfl
  · rw [if_neg large, if_neg large]
    by_cases pending : !emission.draft.unresolved.isEmpty
    · rw [if_pos pending, if_pos pending]
      rfl
    · rw [if_neg pending, if_neg pending]
      have storages : ((namedScopes program scopes).toArray.mapIdx fun index named =>
          storageOf emission.functions index named.name named.arity named.scope) =
          (((storageNames program).zip scopes).zipIdx.map fun entry =>
            storageOf emission.functions entry.2 entry.1.1.1 entry.1.1.2 entry.1.2).toArray := by
        rw [List.mapIdx_toArray, List.mapIdx_eq_zipIdx_map, namedScopes,
          ← List.map_uncurry_zip_eq_zipWith, List.zipIdx_map, List.map_map]
        rfl
      simp only [Except.map, unit, storages]

/-- The scopes of a whole program are added one by one as they are collected. -/
theorem outcome_scopes (program : Program) (natives : Resolver) (functions : Functions) :
    let context : Context := { natives, functions }
    match outcome (addScope "" [] program.position program.items) context >>=
        outcome ((definitions program).forM fun d =>
          addScope d.name d.params d.bodyPosition d.body) with
    | .ok after => ∃ top rest, rest.length = (definitions program).length ∧
        collectScopes functions natives program (definitions program) =
          .ok (top :: rest).toArray ∧
        after = { context with scopes := (namedScopes program (top :: rest)).toArray }
    | .error error => ∃ fault, error = .fault fault ∧
        collectScopes functions natives program (definitions program) = .error fault := by
  intro context
  rw [outcome_addScope, collectScopes_eq]
  cases Scope.build functions natives "" [] program.position program.items with
  | error fault => exact ⟨fault, rfl, rfl⟩
  | ok top =>
      have others := outcome_addScopes (definitions program)
        (context.withScopes [⟨"", 0, top⟩])
      change match outcome _ (context.withScopes [⟨"", 0, top⟩]) with
        | .ok after => _
        | .error error => _
      generalize outcome _ (context.withScopes [⟨"", 0, top⟩]) = ended at others
      cases ended with
      | error error =>
          rcases others with ⟨fault, same, fails⟩
          exact ⟨fault, same, fails #[top]⟩
      | ok after =>
          rcases others with ⟨rest, count, same, collects⟩
          refine ⟨top, rest, count, (collects #[top]).trans (by simp), ?_⟩
          have named : List.zipWith namedScope (definitions program) rest =
              List.zipWith (fun named scope => (⟨named.1, named.2, scope⟩ : NamedScope))
                ((definitions program).map fun d => (d.name, d.params.length)) rest := by
            rw [List.zipWith_map_left]
            rfl
          rw [same, named]
          simp [withScopes, namedScopes, storageNames, context]

/-- What a compilation makes of a context is the unit that the program is compiled to. -/
theorem outcome_compilation (context : Context) (program : Program) :
    (outcome (compilation program) context).map unit = Code.compile context.natives program := by
  have clears : outcome (compilation program) context =
      outcome ((definitions program).forM addFunction) { natives := context.natives } >>=
        fun collected => (outcome (addScope "" [] program.position program.items) collected >>=
          outcome ((definitions program).forM fun d =>
            addScope d.name d.params d.bodyPosition d.body)) >>=
        fun built => outcome (emitProgram program) built >>= outcome (checkCode program) := by
    rw [← cleared_eq]
    simp only [← outcome_bind, bind_assoc]
    rfl
  rw [clears, outcome_addFunctions, ← collectFunctions_eq]
  cases collected : collectFunctions (definitions program) with
  | error fault =>
      simp only [Code.compile, collected]
      rfl
  | ok functions =>
      have scopes := outcome_scopes program context.natives functions
      change ((outcome (addScope "" [] program.position program.items)
        { natives := context.natives, functions } >>= _) >>= fun built =>
          outcome (emitProgram program) built >>= outcome (checkCode program)).map unit = _
      simp only at scopes
      generalize (outcome (addScope "" [] program.position program.items)
        { natives := context.natives, functions } >>= _) = ended at scopes
      cases ended with
      | error error =>
          rcases scopes with ⟨fault, rfl, fails⟩
          simp only [Code.compile, collected, Except.mapError, Bind.bind, Except.bind, fails]
          rfl
      | ok after =>
          rcases scopes with ⟨top, rest, count, built, rfl⟩
          rw [compile_eq context.natives collected built]
          change (outcome (emitProgram program) _ >>= outcome (checkCode program)).map unit = _
          have place : (namedScopes program (top :: rest)).toArray.map (·.scope) =
              (top :: rest).toArray := by
            simp [map_scope_namedScopes program top count]
          rw [outcome_emitProgram]
          simp only [place]
          change ((emitted (emitStatements (topPlace context.natives top rest) program.items)
            { functions }).map _ >>= _).map unit = _
          unfold emitted
          cases emitStatements (topPlace context.natives top rest) program.items { functions } with
          | error error left => rfl
          | ok result emission =>
              exact outcome_checkCode program context.natives (top :: rest) emission

end Outcome

/-- A context after some programs were compiled into it, one after another. -/
def compileAll (context : Context) (programs : List Program) : Context :=
  programs.foldl (fun used program => (used.compile program).2) context

/-- However many compilations succeed or fail, the native functions stay. -/
theorem natives_compileAll (context : Context) (programs : List Program) :
    (context.compileAll programs).natives = context.natives := by
  induction programs generalizing context with
  | nil => rfl
  | cons program rest ih =>
      rw [compileAll, List.foldl_cons]
      exact (ih (context.compile program).2).trans (natives_compile context program)

/--
After any compilations into a context, successful or not, a program is compiled into it as into
a new one: with the same error or none, and with the same code, locations, scopes and functions
in the end. When there is no error, these are the ones of the unit that the program is
compiled to, and otherwise the error is the one for which it is refused.
-/
theorem compile_used (natives : Resolver) (programs : List Program) (last : Program) :
    let used : Context := Context.compileAll { natives } programs
    used.compile last = Context.compile { natives } last ∧
      match Code.compile natives last with
      | .ok unit => ∃ after, used.compile last = (none, after) ∧ after.unit = unit
      | .error error => ∃ left, used.compile last = (some error, left) := by
  intro used
  have same : used.natives = natives := natives_compileAll { natives } programs
  refine ⟨compile_congr same last, ?_⟩
  have comes := outcome_compilation used last
  rw [same] at comes
  rw [← comes, outcome, compile]
  cases compilation last used with
  | ok result after => exact ⟨after, rfl, rfl⟩
  | error error left => exact ⟨left, rfl⟩

end Context

end Lehce.Code
