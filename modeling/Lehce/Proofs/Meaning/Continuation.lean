import Lehce.Proofs.Meaning.Agreement
import Lehce.Proofs.Meaning.Correctness

/-!
# Programs that are continued

A program is continued by one that has the same statements in front. What its statements do
may change by that: a later definition takes over the name of a native function, and a later
assignment makes a variable of a name at the top level. Where neither happens, the statements
do behind the front of the longer program what they do alone, whatever comes behind them. So
a run of the longer program begins with all that the shorter one writes.
-/

namespace Lehce

open Code (ScopeText definitions functionNames topText)

/-- A symbol of a scope keeps its meaning in another program: it becomes no variable, and it is
not taken over by a function. -/
def KeepsMeaning (text other : ScopeText) (names laterNames : List String) : Node → Prop
  | .symbol _ name => (other.binds name = true → text.binds name = true) ∧
    (text.binds name = false → name ∈ laterNames → name ∈ names)
  | _ => True

instance (text other : ScopeText) (names laterNames : List String) :
    DecidablePred (KeepsMeaning text other names laterNames)
  | .symbol _ _ => inferInstanceAs (Decidable (_ ∧ _))
  | .literal .. | .path .. | .binary .. | .control .. | .assignment .. | .block .. | .function ..
  | .call .. | .list .. | .dict .. | .prefixed .. | .suffixed .. | .index .. | .branch ..
  | .returns .. | .breaks .. | .continues .. | .endlessLoop .. | .whileLoop ..
  | .nothing .. => inferInstanceAs (Decidable True)

/-- A program has the statements of another one in front, and leaves their names alone. -/
structure Program.IsContinuedBy (program later : Program) : Prop where
  items : program.items <+: later.items
  top : ∀ node ∈ (topText program).nodes, KeepsMeaning (topText program) (topText later)
    (functionNames program) (functionNames later) node
  inner : ∀ definition ∈ definitions program, ∀ node ∈ definition.text.nodes,
    KeepsMeaning definition.text definition.text (functionNames program) (functionNames later) node

namespace Program

variable {program later : Program}

theorem IsContinuedBy.refl (program : Program) : program.IsContinuedBy program := by
  have keeps : ∀ (text : ScopeText) (names : List String) (node : Node),
      KeepsMeaning text text names names node := by
    intro text names node
    cases node with
    | symbol => exact ⟨id, fun _ => id⟩
    | _ => trivial
  exact ⟨List.prefix_refl _, fun node _ => keeps _ _ node, fun _ _ node _ => keeps _ _ node⟩

theorem definitions_front (prefixed : program.items <+: later.items) :
    definitions program <+: definitions later := by
  rcases prefixed with ⟨more, items⟩
  rw [Code.definitions_eq, Code.definitions_eq, ← items, Node.occurrencesAll_append,
    List.filterMap_append]
  exact List.prefix_append _ _

theorem nodes_front (prefixed : program.items <+: later.items) :
    (topText program).nodes <+: (topText later).nodes := by
  rcases prefixed with ⟨more, items⟩
  have nodes : (topText later).nodes =
      (topText program).nodes ++ Node.occurrencesAll false more := by
    simp only [ScopeText.nodes, topText, ← items, Node.occurrencesAll_append]
  rw [nodes]
  exact List.prefix_append _ _

theorem bodies_front (prefixed : program.items <+: later.items) :
    Code.programBodies program <+: Code.programBodies later := by
  rcases prefixed with ⟨more, items⟩
  rw [Code.programBodies, Code.programBodies, ← items, Code.statementsBodies_append]
  exact List.prefix_append _ _

/-- The variables of the top level are variables of the longer one. -/
theorem binds_of_front (prefixed : program.items <+: later.items) {name : String}
    (bound : (topText program).binds name = true) : (topText later).binds name = true := by
  rcases nodes_front prefixed with ⟨more, nodes⟩
  simp only [ScopeText.binds, Code.isVariable, scopeVariables, List.contains_iff_mem,
    List.mem_append] at bound ⊢
  refine bound.imp id fun assigned => ?_
  rcases List.mem_filterMap.1 assigned with ⟨node, member, named⟩
  refine List.mem_filterMap.2 ⟨node, ?_, named⟩
  exact (nodes_front prefixed).subset member

/-- The numbers that stand in the top level have the meaning that they have in the longer one. -/
theorem pooled_of_front (prefixed : program.items <+: later.items) {number : Float}
    (written : number ∈ Node.numbers (topText program).nodes) :
    (topText later).pooled number = (topText program).pooled number := by
  rcases nodes_front prefixed with ⟨more, nodes⟩
  unfold ScopeText.pooled
  rw [← nodes]
  cases isZero : number == 0 with
  | false => rfl
  | true =>
      have first : ((Node.numbers (topText program).nodes).find? (· == 0)).isSome := by
        rw [List.find?_isSome]
        exact ⟨number, written, isZero⟩
      rcases Option.isSome_iff_exists.1 first with ⟨zero, found⟩
      have whole : (Node.numbers ((topText program).nodes ++ more)).find? (· == 0) = some zero := by
        rw [Node.numbers] at found ⊢
        rw [List.filterMap_append, List.find?_append, found, Option.some_or]
      rw [found, whole]

end Program

namespace Meaning

theorem Setting.nativeValue_sound {known : FunctionRef → Prop} (setting : Setting)
    (name : String) : (setting.nativeValue name).Sound known := by
  unfold Setting.nativeValue
  split
  · exact nofun
  · trivial

/-- Statements behind others are executed when those end normally. -/
theorem evalStatements_append {setting : Setting} {place : Place} {invoke : Invoke} {fuel : Nat}
    {front : List Node} {state after : State} {flow : Flow} (back : List Node) :
    evalStatements setting place invoke fuel front state = .ok flow after →
      evalStatements setting place invoke fuel (front ++ back) state =
        match flow with
        | .normal => evalStatements setting place invoke fuel back after
        | flow => .ok flow after := by
  intro evaluates
  induction front generalizing state with
  | nil =>
      rw [evalStatements] at evaluates
      cases evaluates
      rfl
  | cons node rest ih =>
      rw [evalStatements] at evaluates
      rw [List.cons_append, evalStatements]
      change EStateM.bind _ _ state = _ at evaluates
      change EStateM.bind _ _ state = _
      unfold EStateM.bind at evaluates ⊢
      cases result : evalStatement setting place invoke fuel node state with
      | error halt middle =>
          rw [result] at evaluates
          cases evaluates
      | ok first middle =>
          rw [result] at evaluates
          cases first with
          | normal => exact ih evaluates
          | breaks | continues | returns =>
              cases evaluates
              rfl

/-- An execution of a longer program, in the same circumstances. -/
structure Execution.Precedes (e l : Execution) : Prop where
  natives : l.natives = e.natives
  registry : l.registry = e.registry
  policy : l.policy = e.policy
  callDepth : l.callDepth = e.callDepth
  program : e.program.IsContinuedBy l.program

namespace Execution

variable {e l : Execution} {name : String} {ref : FunctionRef}

theorem mem_functionNames_iff :
    name ∈ functionNames e.program ↔ ∃ ref ∈ e.unit.functions, ref.name = name := by
  rw [functionNames, ← Code.programBodies_definitions e.shaped, List.map_map, List.mem_map]
  constructor
  · rintro ⟨body, member, rfl⟩
    rcases List.mem_iff_getElem?.1 member with ⟨number, found⟩
    exact ⟨body.ref number, (e.compiled.mem_functions_iff e.shaped).2 ⟨number, body, found, rfl⟩,
      rfl⟩
  · rintro ⟨ref, member, rfl⟩
    rcases (e.compiled.mem_functions_iff e.shaped).1 member with ⟨number, body, found, rfl⟩
    exact ⟨body, List.mem_of_getElem? found, rfl⟩

theorem functionValue_other (other : name ∉ functionNames e.program) :
    e.setting.functionValue name = e.setting.nativeValue name := by
  have absent : e.unit.functions.find? (·.name == name) = none := by
    rw [List.find?_eq_none]
    intro ref member named
    exact other (mem_functionNames_iff.2 ⟨ref, member, by simpa using named⟩)
  rw [Setting.functionValue, setting, absent]

theorem functionValue_sound (name : String) :
    (e.setting.functionValue name).Sound (· ∈ e.unit.functions) := by
  by_cases own : name ∈ functionNames e.program
  · rcases mem_functionNames_iff.1 own with ⟨ref, member, named⟩
    rw [functionValue_own member named]
    exact fun _ => member
  · rw [functionValue_other own]
    exact e.setting.nativeValue_sound name

namespace Precedes

theorem functions (precedes : e.Precedes l) (member : ref ∈ e.unit.functions) :
    ref ∈ l.unit.functions := by
  rcases (e.compiled.mem_functions_iff e.shaped).1 member with ⟨number, body, found, rfl⟩
  rcases Program.bodies_front precedes.program.items with ⟨more, bodies⟩
  refine (l.compiled.mem_functions_iff l.shaped).2 ⟨number, body, ?_, rfl⟩
  rw [← bodies, List.getElem?_append_left (List.getElem?_eq_some_iff.1 found).1]
  exact found

/-- A program that nothing follows precedes itself. -/
theorem refl (e : Execution) : e.Precedes e :=
  ⟨rfl, rfl, rfl, rfl, .refl e.program⟩

theorem functionValue_eq (precedes : e.Precedes l)
    (kept : name ∈ functionNames l.program → name ∈ functionNames e.program) :
    l.setting.functionValue name = e.setting.functionValue name := by
  by_cases own : name ∈ functionNames e.program
  · rcases mem_functionNames_iff.1 own with ⟨ref, member, named⟩
    rw [functionValue_own member named, functionValue_own (precedes.functions member) named]
  · have same : l.setting.natives = e.setting.natives := precedes.natives
    rw [functionValue_other own, functionValue_other fun later => own (kept later),
      Setting.nativeValue, Setting.nativeValue, same]

/-- What stands in a scope means in the longer program what it means in the shorter one, if its
names keep their meaning. -/
theorem textsConcur (precedes : e.Precedes l) {text other : ScopeText}
    (numbers : ∀ number ∈ Node.numbers text.nodes, l.number other number = e.number text number)
    (binds : ∀ name, text.binds name = true → other.binds name = true)
    (keeps : ∀ node ∈ text.nodes,
      KeepsMeaning text other (functionNames e.program) (functionNames l.program) node) :
    TextsConcur (· ∈ e.unit.functions) e.setting l.setting text other where
  numbers := numbers
  names := by
    intro node member named store sound
    have same : l.setting.natives = e.setting.natives := precedes.natives
    cases named with
    | path position parts =>
        rw [Setting.meaning, Setting.meaning, Setting.nativeValue, same]
        exact ⟨rfl, e.setting.nativeValue_sound _⟩
    | symbol position name =>
        rcases keeps _ member with ⟨unbound, unnamed⟩
        rw [Setting.meaning, Setting.meaning]
        cases bound : text.binds name with
        | true =>
            rw [binds name bound]
            exact ⟨rfl, sound name⟩
        | false =>
            have free : other.binds name = false := by
              rw [Bool.eq_false_iff]
              intro later
              rw [unbound later] at bound
              cases bound
            rw [free]
            exact ⟨precedes.functionValue_eq (unnamed bound), functionValue_sound name⟩

/-- The top level means in the longer program what it means in the shorter one. -/
theorem textsConcur_top (precedes : e.Precedes l) :
    TextsConcur (· ∈ e.unit.functions) e.setting l.setting (topText e.program)
      (topText l.program) := by
  refine precedes.textsConcur (fun number written => ?_)
    (fun _ => Program.binds_of_front precedes.program.items) precedes.program.top
  have laterWritten : number ∈ Node.numbers (topText l.program).nodes := by
    rcases Program.nodes_front precedes.program.items with ⟨more, nodes⟩
    rw [← nodes, Node.numbers, List.filterMap_append]
    exact List.mem_append_left _ written
  rw [e.pooled _ List.mem_cons_self number written,
    l.pooled _ List.mem_cons_self number laterWritten,
    Program.pooled_of_front precedes.program.items written]

/-- The functions of a program are and do the same in the longer one. -/
theorem continues (precedes : e.Precedes l) (appends : Registry.AllAppend e.registry) :
    e.setting.Continues (· ∈ e.unit.functions) l.setting where
  registry := precedes.registry
  policy := precedes.policy
  callDepth := precedes.callDepth
  honest := e.honest
  appends := appends
  bodies := by
    intro ref member
    rcases exists_denotes member with ⟨body, scope, denotes⟩
    rcases Program.definitions_front precedes.program.items with ⟨more, listed⟩
    change (definitions l.program).find? (·.name == ref.name) =
      (definitions e.program).find? (·.name == ref.name)
    rw [← listed, List.find?_append, denotes.defined, Option.some_or]
  shapes := fun definition member => (Code.shaped_definitions e.shaped definition member).body
  texts := by
    intro definition member
    have laterMember : definition ∈ definitions l.program :=
      (Program.definitions_front precedes.program.items).subset member
    refine precedes.textsConcur (fun number written => ?_) (fun _ bound => bound)
      (precedes.program.inner definition member)
    rw [e.pooled _ (Code.mem_scopeTexts member) number written,
      l.pooled _ (Code.mem_scopeTexts laterMember) number written]

/-- Statements of the shorter program come to the same in the longer one. -/
theorem concur (precedes : e.Precedes l) (appends : Registry.AllAppend e.registry) (fuel : Nat)
    {nodes : List Node} (listed : nodes ⊆ e.program.items) :
    Concur (· ∈ e.unit.functions) (Flow.Sound (· ∈ e.unit.functions))
      (evalStatements e.setting ⟨topText e.program, 1, false⟩ (invoke e.setting fuel 1) fuel nodes)
      (evalStatements l.setting ⟨topText l.program, 1, false⟩ (invoke l.setting fuel 1) fuel
        nodes) :=
  have continues := precedes.continues appends
  concur_body listed continues precedes.textsConcur_top (continues.invoke fuel 1) e.shaped false

theorem evaluate_setting (e : Execution) (fuel : Nat) (host : Host) :
    evaluate e.setting fuel host = evalStatements e.setting ⟨topText e.program, 1, false⟩
      (invoke e.setting fuel 1) fuel e.program.items { host } := rfl

/-- An evaluation of the longer program writes all that one of the shorter program writes, and
maybe more behind it. -/
theorem writes (precedes : e.Precedes l) (appends : Registry.AllAppend e.registry) {fuel : Nat}
    {host : Host} (sound : ∀ known, host.heap.Sound known) {flow laterFlow : Flow}
    {state later : State} (evaluates : evaluate e.setting fuel host = .ok flow state)
    (evaluatesLater : evaluate l.setting fuel host = .ok laterFlow later) :
    state.host.Writes later.host := by
  rcases precedes.program.items with ⟨more, items⟩
  have start : ∀ known, State.Sound known { host } := fun known => ⟨fun _ => trivial, sound known⟩
  have laterAppends : Registry.AllAppend l.registry := precedes.registry ▸ appends
  -- The longer program starts as the shorter one.
  have front := (precedes.concur appends fuel (List.Subset.refl _) _ (start _)).1.trans evaluates
  have reached := ((refl l).concur laterAppends fuel (items ▸ List.subset_append_left _ _) _
    (start _)).2 flow state front
  have goesOn := ((refl l).concur laterAppends fuel (items ▸ List.subset_append_right _ _) state
    reached.sound).2
  rw [evaluate_setting, ← items, evalStatements_append more front] at evaluatesLater
  cases flow with
  | normal => exact (goesOn laterFlow later evaluatesLater).writes
  | breaks | continues | returns =>
      cases evaluatesLater
      exact .refl _

end Precedes

end Execution

end Meaning

end Lehce
