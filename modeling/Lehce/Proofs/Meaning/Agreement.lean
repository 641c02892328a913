import Lehce.Proofs.Machine.Output
import Lehce.Proofs.Meaning.Invocation

/-!
# Evaluations that come to the same

A tree that is evaluated in two settings comes to the same in both, if its names and numbers
mean the same, and every function that it can get hold of has the same body. The second
condition is about values: an evaluation holds only functions that it started with or that
have a name in the tree, so functions that are known to one setting alone do no harm.

What has been written stays written meanwhile.
-/

namespace Lehce.Meaning

open Code (BinaryOp ScopeText definitions)

/-- The functions of the program that a state holds are known ones. -/
structure State.Sound (known : FunctionRef → Prop) (state : State) : Prop where
  store : ∀ name, (state.store name).Sound known
  heap : state.host.heap.Sound known

/-- What an evaluation from a state leaves when it has an outcome. -/
structure Leaves {α : Type} (known : FunctionRef → Prop) (fits : α → Prop) (state : State)
    (value : α) (after : State) : Prop where
  sound : after.Sound known
  fits : fits value
  writes : state.host.Writes after.host

/-- Two evaluations come to the same from every sound state, and leave a sound one. -/
def Concur {α : Type} (known : FunctionRef → Prop) (fits : α → Prop) (own other : Eval α) : Prop :=
  ∀ state : State, state.Sound known → other state = own state ∧
    ∀ value after, own state = .ok value after → Leaves known fits state value after

/-- An evaluation leaves sound states sound. -/
abbrev Steady {α : Type} (known : FunctionRef → Prop) (fits : α → Prop) (own : Eval α) : Prop :=
  Concur known fits own own

section Rules

variable {α β : Type} {known : FunctionRef → Prop} {fits : α → Prop} {goal : β → Prop}
  {own other : Eval α} {state : State}

theorem Concur.pure {value : α} (fit : fits value) :
    Steady known fits (pure value) := by
  refine fun state sound => ⟨rfl, ?_⟩
  rintro _ _ ⟨⟩
  exact ⟨sound, fit, .refl _⟩

theorem Concur.throw (halt : Halt) : Steady known fits (throw halt : Eval α) :=
  fun _ _ => ⟨rfl, nofun⟩

theorem Concur.bind {next later : α → Eval β} (first : Concur known fits own other)
    (rest : ∀ value, fits value → Concur known goal (next value) (later value)) :
    Concur known goal (own >>= next) (other >>= later) := by
  intro state sound
  rcases first state sound with ⟨same, leaves⟩
  change EStateM.bind other later state = EStateM.bind own next state ∧
    ∀ value after, EStateM.bind own next state = .ok value after →
      Leaves known goal state value after
  unfold EStateM.bind
  rw [same]
  cases result : own state with
  | error halt after => exact ⟨rfl, nofun⟩
  | ok value after =>
      have left := leaves value after result
      rcases rest value left.fits after left.sound with ⟨restSame, restLeaves⟩
      refine ⟨restSame, fun last final evaluates => ?_⟩
      have right := restLeaves last final evaluates
      exact ⟨right.sound, right.fits, left.writes.trans right.writes⟩

/-- What follows may depend on the state that is read. -/
theorem Concur.get {next later : State → Eval α}
    (rest : ∀ state : State, state.Sound known → Concur known fits (next state) (later state)) :
    Concur known fits (get >>= next) (get >>= later) :=
  fun state sound => rest state sound state sound

theorem Concur.modify {change : State → State}
    (keeps : ∀ state : State, state.Sound known → (change state).Sound known)
    (writes : ∀ state : State, state.host.Writes (change state).host) :
    Steady known (fun _ => True) (modify change : Eval PUnit) := by
  refine fun state sound => ⟨rfl, ?_⟩
  rintro _ _ ⟨⟩
  exact ⟨keeps state sound, trivial, writes state⟩

end Rules

section Operations

variable {known : FunctionRef → Prop} {policy : Policy}

theorem steady_report (fault : Fault) : Steady known (fun _ => True) (report policy fault) := by
  refine fun state sound => ⟨rfl, fun value after evaluates => ?_⟩
  unfold report at evaluates
  simp only at evaluates
  split at evaluates
  · cases evaluates
  · cases evaluates
    exact ⟨⟨sound.store, sound.heap⟩, trivial, .refl _⟩

theorem steady_fail (fault : Fault) : Steady known (Value.Sound known) (fail policy fault) :=
  .bind (steady_report fault) fun _ _ => .pure Value.within_empty

theorem steady_yield {operation : Heap → Except Fault Value}
    (within : ∀ heap value, heap.Sound known → operation heap = .ok value → value.Sound known) :
    Steady known (Value.Sound known) (yield policy operation) := by
  refine .get fun state sound => ?_
  cases result : operation state.host.heap with
  | ok value => exact .pure (within _ value sound.heap result)
  | error fault => exact steady_fail fault

theorem steady_allocate {new : Heap → Value × Heap}
    (within : ∀ heap : Heap, heap.Sound known →
      (new heap).1.Sound known ∧ (new heap).2.Sound known) :
    Steady known (Value.Sound known) (allocate new) := by
  refine fun state sound => ⟨rfl, ?_⟩
  rintro _ _ ⟨⟩
  have made := within _ sound.heap
  exact ⟨⟨sound.store, made.2⟩, made.1, .of_eq rfl⟩

theorem steady_newList {items : Array Value} (within : ∀ item ∈ items, item.Sound known) :
    Steady known (Value.Sound known) (allocate (·.newList items)) :=
  steady_allocate fun _ sound => ⟨trivial, sound.newList within⟩

theorem steady_newDict {entries : List (String × Value)}
    (within : ∀ entry ∈ entries, entry.2.Sound known) :
    Steady known (Value.Sound known) (allocate (·.newDict (Dict.ofList entries))) :=
  steady_allocate fun _ sound => ⟨trivial, sound.newDict fun entry member =>
    within entry (Dict.mem_of_mem_ofList member)⟩

theorem steady_operate (op : BinaryOp) (left right : Value) :
    Steady known (Value.Sound known) (operate policy op left right) := by
  refine .get fun state sound => ?_
  have within := Machine.applyBinary_within sound.heap op left right
  cases result : Machine.applyBinary op state.host.heap left right with
  | value value =>
      rw [result] at within
      exact .pure within
  | items items =>
      rw [result] at within
      exact steady_newList within
  | fault fault => exact steady_fail fault
  | crash crash => exact .throw (.crashed crash)

theorem steady_writeItem (container index : Value) {value : Value} (within : value.Sound known) :
    Steady known (fun _ => True) (writeItem policy container index value) := by
  refine .get fun state sound => ?_
  cases result : Machine.setItem state.host.heap container index value with
  | ok change =>
      refine .modify (fun state sound => ⟨sound.store, ?_⟩) fun state => .of_eq rfl
      exact Machine.setItem_within result within sound.heap
  | error fault => exact steady_report fault

theorem steady_assign (name : String) {value : Value} (within : value.Sound known) :
    Steady known (fun _ => True) (assign name value) := by
  refine .modify (fun state sound => ⟨fun other => ?_, sound.heap⟩) fun state => .of_eq rfl
  simp only
  split
  · exact within
  · exact sound.store other

theorem steady_truthy (value : Value) : Steady known (fun _ => True) (truthy value) :=
  .get fun _ _ => .pure trivial

end Operations

/-- What stands in one text means in one setting what it means in another text and setting, and
names mean known functions. -/
structure TextsConcur (known : FunctionRef → Prop) (setting later : Setting)
    (text other : ScopeText) : Prop where
  numbers : ∀ number ∈ Node.numbers text.nodes,
    later.number other number = setting.number text number
  names : ∀ node ∈ text.nodes, node.IsName → ∀ store : String → Value,
    (∀ name, (store name).Sound known) →
      later.meaning other store node = setting.meaning text store node ∧
        (setting.meaning text store node).Sound known

/-- A setting is continued by another one: what is known in it is and means the same there. -/
structure Setting.Continues (known : FunctionRef → Prop) (setting later : Setting) : Prop where
  registry : later.registry = setting.registry
  policy : later.policy = setting.policy
  callDepth : later.callDepth = setting.callDepth
  honest : Registry.AllHonest setting.registry
  appends : Registry.AllAppend setting.registry
  bodies : ∀ ref, known ref → (definitions later.program).find? (·.name == ref.name) =
    (definitions setting.program).find? (·.name == ref.name)
  shapes : ∀ definition ∈ definitions setting.program, ∀ item ∈ definition.body,
    item.IsStatement Number.IsNumber false true
  texts : ∀ definition ∈ definitions setting.program,
    TextsConcur known setting later definition.text definition.text

/-- Two ways to invoke known functions come to the same. -/
def InvokesConcur (known : FunctionRef → Prop) (invoke other : Invoke) : Prop :=
  ∀ (ref : FunctionRef) (args : List Value), known ref → (∀ arg ∈ args, arg.Sound known) →
    Concur known (Value.Sound known) (invoke ref args) (other ref args)

namespace Setting.Continues

variable {known : FunctionRef → Prop} {setting later : Setting} {invoke other : Invoke}

/-- A native function that is registered leaves a sound state and a sound value. -/
theorem leaves_callRegistered (continues : setting.Continues known later) {name : String}
    {natives : Registry} {native : Native} (given : setting.registry = some natives)
    (found : natives.find? name = some native) {args : List Value}
    (within : ∀ arg ∈ args, arg.Sound known) :
    Steady known (Value.Sound known) (setting.callNative name args) := by
  intro state sound
  have kept := ((continues.honest.allKeep known natives given).find? found).call within sound.heap
  have written := (continues.appends natives given native
    (List.mem_of_find?_eq_some found)).call args state.host
  have valueSound := kept.value.orEmpty
  have afterSound : (state.withHost (native.call args state.host).host).Sound known :=
    ⟨sound.store, kept.heap⟩
  refine ⟨rfl, fun value after evaluates => ?_⟩
  cases failed : (native.call args state.host).failure with
  | none =>
      rw [callNative_of_value given found failed] at evaluates
      cases evaluates
      exact ⟨afterSound, valueSound, written⟩
  | some failure =>
      cases told : nativeFault? name failure with
      | some fault =>
          rw [callNative_of_failure given found failed told] at evaluates
          have reports : Steady known (Value.Sound known)
              (report setting.policy fault >>= fun _ =>
                pure (native.call args state.host).value.orEmpty) :=
            .bind (steady_report _) fun _ _ => .pure valueSound
          have left := (reports _ afterSound).2 value after evaluates
          exact ⟨left.sound, left.fits, written.trans left.writes⟩
      | none =>
          cases failure with
          | fault | other => cases told
          | crash crash =>
              rw [callNative_of_crash given found failed] at evaluates
              cases evaluates

theorem callNative (continues : setting.Continues known later) (name : String)
    {args : List Value} (within : ∀ arg ∈ args, arg.Sound known) :
    Concur known (Value.Sound known) (setting.callNative name args)
      (later.callNative name args) := by
  have same : later.callNative name args = setting.callNative name args := by
    unfold Setting.callNative
    rw [continues.registry, continues.policy]
  rw [same]
  cases given : setting.registry with
  | none =>
      unfold Setting.callNative
      rw [given]
      exact .throw (.crashed .missing)
  | some natives =>
      cases found : natives.find? name with
      | none =>
          unfold Setting.callNative
          simp only [given, found]
          exact steady_fail _
      | some native => exact continues.leaves_callRegistered given found within

theorem call (continues : setting.Continues known later) (depth : Nat)
    (invokes : InvokesConcur known invoke other) {callee : Value} (calleeSound : callee.Sound known)
    {args : List Value} (within : ∀ arg ∈ args, arg.Sound known) :
    Concur known (Value.Sound known) (setting.call depth invoke callee args)
      (later.call depth other callee args) := by
  unfold Setting.call
  cases callee with
  | function ref =>
      cases native : ref.native with
      | true => simpa [native] using continues.callNative ref.name within
      | false =>
          simp only [native, Bool.false_eq_true, if_false]
          unfold Setting.callFunction
          rw [continues.policy, continues.callDepth]
          split
          · exact steady_fail _
          · split
            · exact steady_fail _
            · exact invokes ref args (calleeSound native) within
  | _ =>
      rw [continues.policy]
      exact steady_fail _

end Setting.Continues

section Expressions

variable {known : FunctionRef → Prop} {setting later : Setting} {invoke other : Invoke}
  {text otherText : ScopeText} {depth : Nat} {drops : Bool} {node : Node}

/-- All that occurs in a node stands in a text. -/
def Meets (text : ScopeText) (node : Node) : Prop :=
  ∀ occurrence ∈ node.occurrences false, occurrence ∈ text.nodes

theorem Meets.self (meets : Meets text node) : node ∈ text.nodes :=
  meets node (Node.mem_occurrences_self false node)

theorem Meets.part {part : Node} (meets : Meets text node) (member : part ∈ node.parts) :
    Meets text part := fun occurrence inside =>
  meets occurrence (Node.mem_occurrences_iff.2 (.inr ⟨part, member, inside⟩))

/-- An expression comes to the same in two texts. -/
def ExpressionConcurs (known : FunctionRef → Prop) (own later : Node → Eval Value)
    (text : ScopeText) (node : Node) : Prop :=
  Meets text node → Concur known (Value.Sound known) (own node) (later node)

theorem concur_expressions {place otherPlace : Place} {nodes : List Node}
    (meets : ∀ node ∈ nodes, Meets text node)
    (concurs : ∀ node ∈ nodes, ExpressionConcurs known (evalExpression setting place invoke)
      (evalExpression later otherPlace other) text node) :
    Concur known (fun values => ∀ value ∈ values, value.Sound known)
      (evalExpressions setting place invoke nodes)
      (evalExpressions later otherPlace other nodes) := by
  induction nodes with
  | nil =>
      rw [evalExpressions, evalExpressions]
      exact .pure (by simp)
  | cons node rest ih =>
      rcases List.forall_mem_cons.1 meets with ⟨nodeMeets, restMeets⟩
      rcases List.forall_mem_cons.1 concurs with ⟨nodeConcurs, restConcurs⟩
      rw [evalExpressions, evalExpressions]
      refine .bind (nodeConcurs nodeMeets) fun value valueSound => ?_
      refine .bind (ih restMeets restConcurs) fun values valuesSound => ?_
      exact .pure (List.forall_mem_cons.2 ⟨valueSound, valuesSound⟩)

theorem concur_entries {place otherPlace : Place} {entries : List (String × Node)}
    (meets : ∀ entry ∈ entries, Meets text entry.2)
    (concurs : ∀ entry ∈ entries, ExpressionConcurs known (evalExpression setting place invoke)
      (evalExpression later otherPlace other) text entry.2) :
    Concur known (fun values => ∀ entry ∈ values, entry.2.Sound known)
      (evalEntries setting place invoke entries)
      (evalEntries later otherPlace other entries) := by
  induction entries with
  | nil =>
      rw [evalEntries, evalEntries]
      exact .pure (by simp)
  | cons entry rest ih =>
      rcases List.forall_mem_cons.1 meets with ⟨entryMeets, restMeets⟩
      rcases List.forall_mem_cons.1 concurs with ⟨entryConcurs, restConcurs⟩
      rw [evalEntries, evalEntries]
      refine .bind (entryConcurs entryMeets) fun value valueSound => ?_
      refine .bind (ih restMeets restConcurs) fun values valuesSound => ?_
      exact .pure (List.forall_mem_cons.2 ⟨valueSound, valuesSound⟩)

theorem steady_stepVariable {policy : Policy} {op : Op} {position : Position} {name : String} :
    Steady known (fun values => values.1.Sound known ∧ values.2.Sound known)
      (stepVariable policy op (.symbol position name)) := by
  refine .get fun state sound => ?_
  refine .bind (steady_yield fun heap value _ result => Machine.applyUnary_within result)
    fun new newSound => ?_
  exact .bind (steady_assign name newSound) fun _ _ => .pure ⟨sound.store name, newSound⟩

theorem steady_unary {policy : Policy} {op : Code.UnaryOp} {operand : Value} :
    Steady known (Value.Sound known)
      (yield policy fun heap => Machine.applyUnary op heap operand) :=
  steady_yield fun _ _ _ result => Machine.applyUnary_within result

theorem steady_getItem {policy : Policy} {container index : Value} :
    Steady known (Value.Sound known)
      (yield policy fun heap => Machine.getItem heap container index) :=
  steady_yield fun _ _ sound result => Machine.getItem_within sound result

theorem TextsConcur.literal (concur : TextsConcur known setting later text otherText)
    {position : Position} {value : Datum} (shape : value.IsLiteral Number.IsNumber)
    (inside : .literal position value ∈ text.nodes) :
    later.literal otherText value = setting.literal text value ∧
      (setting.literal text value).Sound known := by
  cases value with
  | number number =>
      have written : number ∈ Node.numbers text.nodes := List.mem_filterMap.2 ⟨_, inside, rfl⟩
      exact ⟨congrArg Value.number (concur.numbers number written), trivial⟩
  | empty | bool | text | atom => exact ⟨rfl, trivial⟩
  | absent | list | dict | function => cases shape

theorem concur_call {place otherPlace : Place} {position : Position} {callee : Node}
    {args : List Node} {used : Bool} (continues : setting.Continues known later)
    (concur : TextsConcur known setting later place.text otherPlace.text)
    (same : otherPlace.depth = place.depth) (invokes : InvokesConcur known invoke other)
    (named : callee.IsName)
    (argConcurs : ∀ arg ∈ args, ExpressionConcurs known (evalExpression setting place invoke)
      (evalExpression later otherPlace other) place.text arg)
    (meets : Meets place.text (.call position callee args used)) :
    Concur known (Value.Sound known)
      (evalExpression setting place invoke (.call position callee args used))
      (evalExpression later otherPlace other (.call position callee args used)) := by
  rw [evalExpression, evalExpression, same]
  refine .bind (concur_expressions
    (fun arg member => meets.part (by simp [Node.parts, member])) argConcurs)
    fun values within => ?_
  refine .get fun state sound => ?_
  have means := concur.names _ (meets.part (by simp [Node.parts])).self named state.store
    sound.store
  simp only [means.1]
  exact continues.call place.depth invokes means.2 within

theorem concur_stepBefore {place otherPlace : Place} {position operandPosition : Position}
    {op : Op} {name : String} {used : Bool} (continues : setting.Continues known later)
    (steps : op.isStep) :
    Concur known (Value.Sound known)
      (evalExpression setting place invoke
        (.prefixed position op (.symbol operandPosition name) used))
      (evalExpression later otherPlace other
        (.prefixed position op (.symbol operandPosition name) used)) := by
  have evaluates : ∀ (setting : Setting) (place : Place) (invoke : Invoke),
      evalExpression setting place invoke
        (.prefixed position op (.symbol operandPosition name) used) =
          stepVariable setting.policy op (.symbol operandPosition name) >>= fun values =>
            pure values.2 := by
    intro setting place invoke
    cases op <;> first | rfl | cases steps
  rw [evaluates, evaluates, continues.policy]
  exact .bind steady_stepVariable fun _ within => .pure within.2

theorem concur_stepAfter {place otherPlace : Place} {position operandPosition : Position}
    {op : Op} {name : String} {used : Bool} (continues : setting.Continues known later) :
    Concur known (Value.Sound known)
      (evalExpression setting place invoke
        (.suffixed position op (.symbol operandPosition name) used))
      (evalExpression later otherPlace other
        (.suffixed position op (.symbol operandPosition name) used)) := by
  rw [evalExpression, evalExpression, continues.policy]
  exact .bind steady_stepVariable fun _ within => .pure within.1

/-- An expression comes to the same in a text and in one in which names and numbers mean the
same. -/
theorem concur_expression (continues : setting.Continues known later)
    (concur : TextsConcur known setting later text otherText)
    (invokes : InvokesConcur known invoke other) (shape : node.IsExpression Number.IsNumber) :
    ExpressionConcurs known (evalExpression setting ⟨text, depth, drops⟩ invoke)
      (evalExpression later ⟨otherText, depth, drops⟩ other) text node := by
  induction shape with
  | literal shape =>
      intro meets
      rw [evalExpression, evalExpression, (concur.literal shape meets.self).1]
      exact .pure (concur.literal shape meets.self).2
  | nothing position =>
      intro meets
      rw [evalExpression, evalExpression]
      exact .pure trivial
  | @name node named =>
      intro meets
      have evaluates : ∀ (setting : Setting) (place : Place) (invoke : Invoke),
          evalExpression setting place invoke node = do
            return setting.meaning place.text (← get).store node := by
        intro setting place invoke
        cases named <;> rw [evalExpression] <;> simp
      rw [evaluates, evaluates]
      refine .get fun state sound => ?_
      have means := concur.names node meets.self named state.store sound.store
      simp only [means.1]
      exact .pure means.2
  | binary arithmetic leftShape rightShape leftConcurs rightConcurs =>
      intro meets
      rw [evalExpression, evalExpression, continues.policy]
      refine .bind (leftConcurs (meets.part (by simp [Node.parts]))) fun first _ => ?_
      exact .bind (rightConcurs (meets.part (by simp [Node.parts]))) fun second _ =>
        steady_operate _ first second
  | comparison compares leftShape rightShape leftConcurs rightConcurs =>
      intro meets
      rcases Code.comparisonOp?_isSome compares with ⟨operation, found⟩
      simp only [evalExpression, found, continues.policy]
      refine .bind (leftConcurs (meets.part (by simp [Node.parts]))) fun first _ => ?_
      exact .bind (rightConcurs (meets.part (by simp [Node.parts]))) fun second _ =>
        steady_operate _ first second
  | logical decides leftShape rightShape leftConcurs rightConcurs =>
      intro meets
      rw [Execution.evalExpression_logical decides, Execution.evalExpression_logical decides]
      refine .bind (leftConcurs (meets.part (by simp [Node.parts]))) fun value valueSound => ?_
      intro state sound
      simp only
      split
      · exact Concur.pure valueSound state sound
      · exact rightConcurs (meets.part (by simp [Node.parts])) state sound
  | call named argShapes argConcurs =>
      intro meets
      exact concur_call continues concur rfl invokes named argConcurs meets
  | list itemShapes itemConcurs =>
      intro meets
      rw [evalExpression, evalExpression]
      refine .bind (concur_expressions
        (fun item member => meets.part (by simp [Node.parts, member])) itemConcurs)
        fun values within => ?_
      exact steady_newList fun item member => within item (by simpa using member)
  | dict distinct valueShapes valueConcurs =>
      intro meets
      rw [evalExpression, evalExpression]
      refine .bind (concur_entries
        (fun entry member => meets.part (by simp [Node.parts]; exact ⟨_, member⟩)) valueConcurs)
        fun values within => ?_
      exact steady_newDict within
  | not operandShape operandConcurs | negate unfolded operandShape operandConcurs =>
      intro meets
      rw [evalExpression, evalExpression, continues.policy]
      exact .bind (operandConcurs (meets.part (by simp [Node.parts]))) fun value _ => steady_unary
  | stepBefore steps operandPosition name =>
      intro meets
      exact concur_stepBefore continues steps
  | stepAfter steps operandPosition name =>
      intro meets
      exact concur_stepAfter continues
  | index bodyShape keyShape bodyConcurs keyConcurs =>
      intro meets
      rw [evalExpression, evalExpression, continues.policy]
      refine .bind (bodyConcurs (meets.part (by simp [Node.parts]))) fun container _ => ?_
      exact .bind (keyConcurs (meets.part (by simp [Node.parts]))) fun key _ => steady_getItem

end Expressions

/-- The value of a return is sound. -/
def Flow.Sound (known : FunctionRef → Prop) : Flow → Prop
  | .returns value => value.Sound known
  | _ => True

section Statements

variable {known : FunctionRef → Prop} {setting later : Setting} {invoke other : Invoke}
  {text otherText : ScopeText} {depth fuel : Nat} {drops inLoop inFunction : Bool} {node : Node}

/-- A statement comes to the same in two texts, whether its values are dropped or not. -/
def StatementConcurs (known : FunctionRef → Prop) (setting later : Setting)
    (invoke other : Invoke) (text otherText : ScopeText) (depth fuel : Nat) (node : Node) : Prop :=
  Meets text node → ∀ drops, Concur known (Flow.Sound known)
    (evalStatement setting ⟨text, depth, drops⟩ invoke fuel node)
    (evalStatement later ⟨otherText, depth, drops⟩ other fuel node)

theorem concur_statements {nodes : List Node} (meets : ∀ node ∈ nodes, Meets text node)
    (concurs : ∀ node ∈ nodes,
      StatementConcurs known setting later invoke other text otherText depth fuel node)
    (drops : Bool) :
    Concur known (Flow.Sound known)
      (evalStatements setting ⟨text, depth, drops⟩ invoke fuel nodes)
      (evalStatements later ⟨otherText, depth, drops⟩ other fuel nodes) := by
  induction nodes with
  | nil =>
      rw [evalStatements, evalStatements]
      exact .pure trivial
  | cons node rest ih =>
      rcases List.forall_mem_cons.1 meets with ⟨nodeMeets, restMeets⟩
      rcases List.forall_mem_cons.1 concurs with ⟨nodeConcurs, restConcurs⟩
      rw [evalStatements, evalStatements]
      refine .bind (nodeConcurs nodeMeets drops) fun flow flowSound => ?_
      cases flow with
      | normal => exact ih restMeets restConcurs
      | breaks | continues | returns => exact .pure flowSound

theorem concur_iterate {guard otherGuard : Eval Bool} {body otherBody : Eval Flow}
    (guards : Concur known (fun _ => True) guard otherGuard)
    (bodies : Concur known (Flow.Sound known) body otherBody) (rounds : Nat) :
    Concur known (Flow.Sound known) (iterate guard body rounds)
      (iterate otherGuard otherBody rounds) := by
  induction rounds with
  | zero => exact .throw .exhausted
  | succ rounds ih =>
      rw [iterate, iterate]
      refine .bind guards fun holds _ => ?_
      cases holds with
      | false => exact .pure trivial
      | true =>
          refine .bind bodies fun flow flowSound => ?_
          cases flow with
          | normal | continues => exact ih
          | breaks => exact .pure trivial
          | returns value => exact .pure flowSound

theorem steady_keepValue (place : Place) (node : Node) (value : Value) :
    Steady known (fun _ => True) (keepValue place node value) := by
  unfold keepValue
  split
  · exact .modify (fun state sound => ⟨sound.store, sound.heap⟩) fun state => .of_eq rfl
  · exact .pure trivial

section Assignments

variable {value : Node} {op : Op}

theorem concur_combine (continues : setting.Continues known later)
    (concur : TextsConcur known setting later text otherText)
    (invokes : InvokesConcur known invoke other) (shape : value.IsExpression Number.IsNumber)
    (meets : Meets text value) (old : Value) :
    Concur known (Value.Sound known)
      (combine setting ⟨text, depth, drops⟩ invoke op old value)
      (combine later ⟨otherText, depth, drops⟩ other op old value) := by
  unfold combine
  rw [continues.policy]
  exact .bind (concur_expression continues concur invokes shape meets) fun new _ =>
    steady_operate _ old new

theorem concur_assignment (continues : setting.Continues known later)
    (concur : TextsConcur known setting later text otherText)
    (invokes : InvokesConcur known invoke other) (shape : value.IsExpression Number.IsNumber)
    (meets : Meets text value) (position : Position) (name : String) :
    Concur known (fun _ => True)
      (evalAssignment setting ⟨text, depth, drops⟩ invoke (.symbol position name) op value)
      (evalAssignment later ⟨otherText, depth, drops⟩ other (.symbol position name) op value) := by
  unfold evalAssignment
  simp only
  split
  · exact .bind (concur_expression continues concur invokes shape meets) fun new newSound =>
      steady_assign name newSound
  · refine .get fun state _ => ?_
    exact .bind (concur_combine continues concur invokes shape meets _) fun new newSound =>
      steady_assign name newSound

theorem concur_itemAssignment {body key : Node} (continues : setting.Continues known later)
    (concur : TextsConcur known setting later text otherText)
    (invokes : InvokesConcur known invoke other)
    (bodyShape : body.IsExpression Number.IsNumber) (keyShape : key.IsExpression Number.IsNumber)
    (shape : value.IsExpression Number.IsNumber) (bodyMeets : Meets text body)
    (keyMeets : Meets text key) (meets : Meets text value) (position : Position) :
    Concur known (fun _ => True)
      (evalAssignment setting ⟨text, depth, drops⟩ invoke (.index position body key) op value)
      (evalAssignment later ⟨otherText, depth, drops⟩ other (.index position body key) op
        value) := by
  unfold evalAssignment
  simp only [continues.policy]
  refine .bind (concur_expression continues concur invokes bodyShape bodyMeets)
    fun container _ => ?_
  refine .bind (concur_expression continues concur invokes keyShape keyMeets) fun index _ => ?_
  split
  · exact .bind (concur_expression continues concur invokes shape meets) fun new newSound =>
      steady_writeItem container index newSound
  · refine .bind steady_getItem fun old _ => ?_
    exact .bind (concur_combine continues concur invokes shape meets old) fun new newSound =>
      steady_writeItem container index newSound

end Assignments

/-- The value of a statement that is an expression is kept or dropped. -/
theorem concur_valued {place otherPlace : Place} (same : otherPlace.drops = place.drops)
    (valued : node.isValued = true)
    (concurs : Concur known (Value.Sound known) (evalExpression setting place invoke node)
      (evalExpression later otherPlace other node)) :
    Concur known (Flow.Sound known) (evalStatement setting place invoke fuel node)
      (evalStatement later otherPlace other fuel node) := by
  have kept : keepValue otherPlace node = keepValue place node := by
    unfold keepValue
    rw [same]
  rw [evalStatement_of_valued valued, evalStatement_of_valued valued, kept]
  refine .bind concurs fun value _ => ?_
  exact .bind (steady_keepValue place node value) fun _ _ => .pure trivial

theorem concur_whileLoop {position bodyPosition : Position} {condition : Node} {body : List Node}
    (conditionConcurs : ∀ drops, Concur known (Value.Sound known)
      (evalExpression setting ⟨text, depth, drops⟩ invoke condition)
      (evalExpression later ⟨otherText, depth, drops⟩ other condition))
    (bodyConcurs : Concur known (Flow.Sound known)
      (evalStatements setting ⟨text, depth, true⟩ invoke fuel body)
      (evalStatements later ⟨otherText, depth, true⟩ other fuel body)) (drops : Bool) :
    Concur known (Flow.Sound known)
      (evalStatement setting ⟨text, depth, drops⟩ invoke fuel
        (.whileLoop position condition bodyPosition body))
      (evalStatement later ⟨otherText, depth, drops⟩ other fuel
        (.whileLoop position condition bodyPosition body)) := by
  rw [evalStatement, evalStatement]
  exact concur_iterate
    (.bind (conditionConcurs drops) fun value _ => steady_truthy value) bodyConcurs fuel

/-- A condition decides between two ways that each come to the same. -/
theorem concur_decision {own otherOwn : Eval Value} {holds otherHolds fails otherFails : Eval Flow}
    (conditions : Concur known (Value.Sound known) own otherOwn)
    (whenTrue : Concur known (Flow.Sound known) holds otherHolds)
    (whenFalse : Concur known (Flow.Sound known) fails otherFails) :
    Concur known (Flow.Sound known)
      (own >>= fun value => truthy value >>= fun decision => if decision then holds else fails)
      (otherOwn >>= fun value => truthy value >>= fun decision =>
        if decision then otherHolds else otherFails) := by
  refine .bind conditions fun value _ => ?_
  refine .bind (steady_truthy value) fun decision _ => ?_
  cases decision with
  | true => exact whenTrue
  | false => exact whenFalse

/-- A statement comes to the same in a text and in one in which names and numbers mean the
same. -/
theorem concur_statement (continues : setting.Continues known later)
    (concur : TextsConcur known setting later text otherText)
    (invokes : InvokesConcur known invoke other)
    (shape : node.IsStatement Number.IsNumber inLoop inFunction) :
    StatementConcurs known setting later invoke other text otherText depth fuel node := by
  induction shape with
  | value shape lasting =>
      intro meets drops
      exact concur_valued rfl shape.isValued
        (concur_expression continues concur invokes shape meets)
  | call named argShapes =>
      intro meets drops
      exact concur_valued rfl rfl (concur_call continues concur rfl invokes named
        (fun arg member => concur_expression continues concur invokes (argShapes arg member)) meets)
  | stepBefore steps operandPosition name =>
      intro meets drops
      exact concur_valued rfl rfl (concur_stepBefore continues steps)
  | stepAfter steps operandPosition name =>
      intro meets drops
      exact concur_valued rfl rfl (concur_stepAfter continues)
  | assignment assigns targetPosition name valueShape =>
      intro meets drops
      rw [evalStatement, evalStatement]
      exact .bind (concur_assignment continues concur invokes valueShape
        (meets.part (by simp [Node.parts])) targetPosition name) fun _ _ => .pure trivial
  | @itemAssignment _ _ _ _ body key _ assigns targetPosition bodyShape keyShape valueShape =>
      intro meets drops
      have targetMeets : Meets text (.index targetPosition body key) :=
        meets.part (by simp [Node.parts])
      rw [evalStatement, evalStatement]
      exact .bind (concur_itemAssignment continues concur invokes bodyShape keyShape valueShape
        (targetMeets.part (by simp [Node.parts])) (targetMeets.part (by simp [Node.parts]))
        (meets.part (by simp [Node.parts])) targetPosition) fun _ _ => .pure trivial
  | branch conditionShape bodyShapes bodyConcurs =>
      intro meets drops
      rw [evalStatement, evalStatement]
      exact concur_decision (concur_expression continues concur invokes conditionShape
        (meets.part (by simp [Node.parts])))
        (concur_statements (fun item member => meets.part (by simp [Node.parts, member]))
          bodyConcurs drops) (.pure trivial)
  | @branchElse _ _ _ _ otherPosition _ _ others conditionShape bodyShapes otherShapes bodyConcurs
      otherConcurs =>
      intro meets drops
      have otherMeets : Meets text (.block otherPosition others) :=
        meets.part (by simp [Node.parts])
      rw [evalStatement, evalStatement, evalStatement, evalStatement]
      exact concur_decision (concur_expression continues concur invokes conditionShape
        (meets.part (by simp [Node.parts])))
        (concur_statements (fun item member => meets.part (by simp [Node.parts, member]))
          bodyConcurs drops)
        (concur_statements (fun item member =>
          otherMeets.part (by simpa [Node.parts] using member)) otherConcurs drops)
  | branchChain conditionShape bodyShapes chained otherShape bodyConcurs otherConcurs =>
      intro meets drops
      rw [evalStatement, evalStatement]
      exact concur_decision (concur_expression continues concur invokes conditionShape
        (meets.part (by simp [Node.parts])))
        (concur_statements (fun item member => meets.part (by simp [Node.parts, member]))
          bodyConcurs drops) (otherConcurs (meets.part (by simp [Node.parts])) drops)
  | endlessLoop bodyShapes bodyConcurs =>
      intro meets drops
      rw [evalStatement, evalStatement]
      exact concur_iterate (.pure trivial) (concur_statements
        (fun item member => meets.part (by simpa [Node.parts] using member)) bodyConcurs true) fuel
  | whileLoop conditionShape bodyShapes bodyConcurs =>
      intro meets drops
      exact concur_whileLoop (fun drops => concur_expression continues concur invokes
        conditionShape (meets.part (by simp [Node.parts])))
        (concur_statements (fun item member => meets.part (by simp [Node.parts, member]))
          bodyConcurs true) drops
  | breaks position | continues position =>
      intro meets drops
      rw [evalStatement, evalStatement]
      exact .pure trivial
  | returns valueShape =>
      intro meets drops
      rw [evalStatement, evalStatement]
      exact .bind (concur_expression continues concur invokes valueShape
        (meets.part (by simp [Node.parts]))) fun value valueSound => .pure valueSound
  | function distinct bodyShapes ended =>
      intro meets drops
      rw [evalStatement, evalStatement]
      exact .pure trivial

/-- Statements of a text come to the same in a text in which names and numbers mean the same. -/
theorem concur_body {nodes : List Node} (listed : nodes ⊆ text.body)
    (continues : setting.Continues known later)
    (concur : TextsConcur known setting later text otherText)
    (invokes : InvokesConcur known invoke other)
    (shapes : ∀ item ∈ text.body, item.IsStatement Number.IsNumber inLoop inFunction)
    (drops : Bool) :
    Concur known (Flow.Sound known)
      (evalStatements setting ⟨text, depth, drops⟩ invoke fuel nodes)
      (evalStatements later ⟨otherText, depth, drops⟩ other fuel nodes) :=
  concur_statements
    (fun item member _ inside => Node.mem_occurrencesAll.2 ⟨item, listed member, inside⟩)
    (fun item member =>
      concur_statement continues concur invokes (shapes item (listed member))) drops

end Statements

section Invocations

variable {known : FunctionRef → Prop} {setting later : Setting}

theorem sound_boundStore {params : List String} {args : List Value}
    (within : ∀ arg ∈ args, arg.Sound known) (name : String) :
    (boundStore params args name).Sound known := by
  unfold boundStore
  cases found : (params.zip args).lookup name with
  | none => trivial
  | some value =>
      rcases List.lookup_eq_some_iff.1 found with ⟨front, back, split, _⟩
      have member : (name, value) ∈ params.zip args := by
        rw [split]
        simp
      exact within value (List.of_mem_zip member).2

/-- The activation of a body leaves the variables of its caller alone. -/
theorem concur_activate {store : String → Value} {body other : Eval Flow}
    (within : ∀ name, (store name).Sound known)
    (bodies : Concur known (Flow.Sound known) body other) :
    Concur known (Value.Sound known) (activate store body) (activate store other) := by
  intro state sound
  rcases bodies (state.entered store) ⟨within, sound.heap⟩ with ⟨same, leaves⟩
  cases result : body (state.entered store) with
  | error halt inner =>
      rw [activate_of_error result, activate_of_error (same.trans result)]
      exact ⟨rfl, nofun⟩
  | ok flow inner =>
      rw [activate_of_ok result, activate_of_ok (same.trans result)]
      refine ⟨rfl, ?_⟩
      rintro _ _ ⟨⟩
      have left := leaves flow inner result
      refine ⟨⟨sound.store, left.sound.heap⟩, ?_, left.writes⟩
      cases flow with
      | returns value => exact left.fits
      | normal | breaks | continues => exact trivial

/-- Known functions come to the same, with any fuel. -/
theorem Setting.Continues.invoke (continues : setting.Continues known later) (fuel depth : Nat) :
    InvokesConcur known (Meaning.invoke setting fuel depth) (Meaning.invoke later fuel depth) := by
  induction fuel generalizing depth with
  | zero => exact fun _ _ _ _ => .throw .exhausted
  | succ fuel ih =>
      intro ref args isKnown within
      rw [Meaning.invoke, Meaning.invoke, continues.bodies ref isKnown]
      cases found : (definitions setting.program).find? (·.name == ref.name) with
      | none => exact .pure trivial
      | some definition =>
          have member := List.mem_of_find?_eq_some found
          exact concur_activate (sound_boundStore within)
            (concur_body (List.Subset.refl _) continues (continues.texts definition member)
              (ih (depth + 1)) (continues.shapes definition member) true)

end Invocations

end Lehce.Meaning
