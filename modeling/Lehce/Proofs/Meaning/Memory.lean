import Lehce.Proofs.Meaning.Following

/-!
# Memories and stores

The memory of an activation holds the constants of its scope and, behind them, its
variables. `Remembers` relates it to the store of an evaluation. What an instruction finds
in a slot is then what the evaluation takes for the meaning of a literal or of a name, and
a fresh memory remembers the arguments of a call.
-/

namespace Lehce

namespace Code

section Constants

variable {functions : Functions} {natives : Resolver} {bound : String → Bool}

/-- What stands under the key of a constant. -/
def ConstantKey.Means (functions : Functions) (key : ConstantKey) (datum : Datum) : Prop :=
  match key with
  | .function name false => ∃ ref, functions.find? name = some ref ∧ datum = .function ref
  | .function full true => datum = .function { name := full, native := true, arity := -1 }
  | key => ConstantKey.ofDatum? datum = some key

theorem means_of_ofDatum? {datum : Datum} {key : ConstantKey}
    (keyed : ConstantKey.ofDatum? datum = some key) : key.Means functions datum := by
  cases datum with
  | number value =>
      simp only [ConstantKey.ofDatum?] at keyed
      split at keyed
      · rename_i self
        cases keyed
        simp [ConstantKey.Means, ConstantKey.ofDatum?, self]
      · cases keyed
  | empty | bool | text | atom =>
      cases keyed
      rfl
  | absent | list | dict | function => cases keyed

/-- Under the key of a scalar that is no number there is the scalar. -/
theorem eq_of_means {value datum : Datum} {key : ConstantKey}
    (keyed : ConstantKey.ofDatum? value = some key) (other : ∀ number, value ≠ .number number)
    (means : key.Means functions datum) : datum = value := by
  cases value with
  | number number => exact (other number rfl).elim
  | empty | bool | text | atom =>
      cases keyed
      cases datum <;> simp_all [ConstantKey.Means, ConstantKey.ofDatum?]
  | absent | list | dict | function => cases keyed

theorem means_of_resolveNative {name : String} {found : ConstantKey × FunctionRef}
    (resolved : resolveNative natives name = some found) :
    found.1.Means functions (.function found.2) := by
  rcases Option.map_eq_some_iff.1 resolved with ⟨full, _, rfl⟩
  rfl

theorem means_of_resolveFunction {name : String} {found : ConstantKey × FunctionRef}
    (resolved : resolveFunction functions natives name = some found) :
    found.1.Means functions (.function found.2) := by
  unfold resolveFunction at resolved
  split at resolved
  · rename_i ref known
    cases resolved
    exact ⟨ref, known, rfl⟩
  · exact means_of_resolveNative resolved

theorem means_of_mem_nodeConstants {node : Node} {key : ConstantKey} {datum : Datum}
    (member : (key, datum) ∈ nodeConstants functions natives bound node) :
    key.Means functions datum := by
  cases node with
  | literal position value =>
      simp only [nodeConstants, List.mem_map, Option.mem_toList, Prod.mk.injEq] at member
      rcases member with ⟨found, keyed, rfl, rfl⟩
      exact means_of_ofDatum? keyed
  | nothing position =>
      simp only [nodeConstants, List.mem_singleton, Prod.mk.injEq] at member
      rcases member with ⟨rfl, rfl⟩
      rfl
  | dict position entries =>
      simp only [nodeConstants, List.mem_map, Prod.mk.injEq] at member
      rcases member with ⟨entry, _, rfl, rfl⟩
      rfl
  | symbol position name =>
      simp only [nodeConstants] at member
      split at member
      · cases member
      · simp only [List.mem_map, Option.mem_toList, Prod.mk.injEq] at member
        rcases member with ⟨found, resolved, rfl, rfl⟩
        exact means_of_resolveFunction resolved
  | path position parts =>
      simp only [nodeConstants, List.mem_map, Option.mem_toList, Prod.mk.injEq] at member
      rcases member with ⟨found, resolved, rfl, rfl⟩
      exact means_of_resolveNative resolved
  | _ => simp [nodeConstants] at member

/-- The slot of a key holds what stands under it. -/
theorem Scope.Serves.slot_means {params : List String} {body : List Node} {scope : Scope}
    (serves : scope.Serves functions natives params body) {key : ConstantKey}
    (hasSlot : scope.HasSlot key) :
    ∃ slot datum, scope.constantSlot? key = some slot ∧ slot.toUInt16.toNat = slot ∧
      scope.constants[slot]? = some datum ∧ key.Means functions datum := by
  rcases hasSlot with ⟨slot, found⟩
  have listed := (serves.holdsConstants.slot_iff key).1 (by rw [found]; rfl)
  rcases serves.holdsConstants.slot listed with ⟨same, sameFound, inside, content⟩
  rw [found] at sameFound
  cases sameFound
  have fits := serves.fits
  obtain ⟨datum, held⟩ : ∃ datum, scope.constants[slot]? = some datum :=
    ⟨_, Array.getElem?_eq_getElem inside⟩
  rw [held] at content
  rcases List.lookup_eq_some_iff.1 content.symm with ⟨front, back, split, _⟩
  have member : (key, datum) ∈ scopeConstants functions natives params body := by
    rw [split]
    simp
  rcases List.mem_flatMap.1 member with ⟨node, _, inNode⟩
  exact ⟨slot, datum, found, toNat_toUInt16 (by omega), held, means_of_mem_nodeConstants inNode⟩

/-- The slot of an assigned variable, as an instruction has it. -/
theorem Scope.Bounded.toNat_variableAddress {scope : Scope} (bounded : scope.Bounded)
    {name : String} {slot : Nat} (declared : scope.variableSlot? name = some slot) :
    (variableAddress scope name).toNat = slot := by
  have bounds := bounded.variableSlots name slot declared
  have fits := bounded.fits
  rw [variableAddress, declared, Option.getD_some, toNat_toUInt16 (by omega)]

end Constants

end Code

namespace Meaning

open Code

variable {e : Execution}

namespace Execution

/-- The functions of the program with their entries. -/
def linked (e : Execution) : Functions := e.functions.setEntries (programBodies e.program)

/-- A scope serves a text of the program. -/
structure Serves (e : Execution) (text : ScopeText) (scope : Scope) : Prop where
  known : text ∈ scopeTexts e.program
  serves : scope.Serves e.functions e.natives text.params text.body

/-- A memory holds the constants of a scope and the variables of a store. -/
structure Remembers (e : Execution) (scope : Scope) (store : String → Value)
    (memory : Array Value) : Prop where
  constants : ∀ (slot : Nat) (datum : Datum), scope.constants[slot]? = some datum →
    memory[slot]? = some (Value.ofScalar (linkConstant e.linked datum)).orEmpty
  locals : ∀ name slot, scope.variableSlot? name = some slot →
    memory[slot]? = some (store name)

/-- Functions of one name are the same. -/
theorem functions_unique {ref other : FunctionRef} (member : ref ∈ e.unit.functions)
    (otherMember : other ∈ e.unit.functions) (same : ref.name = other.name) : ref = other := by
  rcases (e.compiled.mem_functions_iff e.shaped).1 member with ⟨number, body, found, rfl⟩
  rcases (e.compiled.mem_functions_iff e.shaped).1 otherMember with
    ⟨otherNumber, otherBody, otherFound, rfl⟩
  have linked := e.compiled.find?_setEntries e.shaped found
  have otherLinked := e.compiled.find?_setEntries e.shaped otherFound
  have names : body.definition.name = otherBody.definition.name := same
  rw [names, otherLinked] at linked
  exact (Option.some.inj linked).symm

theorem functionValue_own {name : String} {ref : FunctionRef} (member : ref ∈ e.unit.functions)
    (named : ref.name = name) : e.setting.functionValue name = .function ref := by
  have found : ∃ other, e.unit.functions.find? (·.name == name) = some other := by
    rw [← Option.isSome_iff_exists, List.find?_isSome]
    exact ⟨ref, member, by simp [named]⟩
  rcases found with ⟨other, found⟩
  have otherNamed : other.name = name := by simpa using List.find?_some found
  have same := functions_unique (List.mem_of_find?_eq_some found) member
    (otherNamed.trans named.symm)
  rw [Setting.functionValue, setting, found, same]

theorem functionValue_native {name full : String} (unknown : e.functions.find? name = none)
    (native : e.natives name = some full) :
    e.setting.functionValue name =
      .function { name := full, native := true, arity := -1 } := by
  have absent : e.unit.functions.find? (·.name == name) = none := by
    rw [List.find?_eq_none]
    intro ref member named
    rcases (e.compiled.mem_functions_iff e.shaped).1 member with ⟨number, body, found, rfl⟩
    have listed := definition_of_body e.shaped found
    have known := e.compiled.lists.find? listed
    have names : (body.ref number).name = name := by simpa using named
    rw [show body.definition.name = name from names, unknown] at known
    cases known
  rw [Setting.functionValue, setting, absent]
  simp only [Setting.nativeValue, native]

end Execution

namespace Execution.Remembers

variable {text : ScopeText} {scope : Scope} {place : Surroundings} {store : String → Value}
  {memory : Array Value} {position : Position}

theorem slot_variable (remembers : e.Remembers scope store memory) (serves : e.Serves text scope)
    {name : String} (declared : ∃ slot, scope.variableSlot? name = some slot) :
    memory[(variableAddress scope name).toNat]? = some (store name) := by
  rcases declared with ⟨slot, found⟩
  rw [serves.serves.bounded.toNat_variableAddress found]
  exact remembers.locals name slot found

/-- The slot of a literal holds what the pool has under the key of the literal. -/
theorem slot_keyed (remembers : e.Remembers scope store memory) (serves : e.Serves text scope)
    {value : Datum} {key : ConstantKey} (keyed : ConstantKey.ofDatum? value = some key)
    (hasSlot : scope.HasSlot key) :
    ∃ slot datum, scope.constantSlot? key = some slot ∧ scope.constants[slot]? = some datum ∧
      key.Means e.functions datum ∧
      memory[(literalAddress scope value).toNat]? =
        some (Value.ofScalar (linkConstant e.linked datum)).orEmpty := by
  rcases serves.serves.slot_means hasSlot with ⟨slot, datum, found, word, content, means⟩
  have address : (literalAddress scope value).toNat = slot := by
    rw [literalAddress, keyed, Option.bind_some, found, Option.getD_some, word]
  exact ⟨slot, datum, found, content, means,
    by rw [address, remembers.constants slot datum content]⟩

/-- The slot of a scalar that is no number holds the scalar. -/
theorem slot_scalar (remembers : e.Remembers scope store memory) (serves : e.Serves text scope)
    {value : Datum} {key : ConstantKey} (keyed : ConstantKey.ofDatum? value = some key)
    (other : ∀ number, value ≠ .number number) (hasSlot : scope.HasSlot key) :
    memory[(literalAddress scope value).toNat]? = some (Value.ofScalar value).orEmpty := by
  rcases remembers.slot_keyed serves keyed hasSlot with ⟨slot, datum, _, _, means, held⟩
  rw [held, eq_of_means keyed other means]
  cases value with
  | function => cases keyed
  | _ => rfl

/-- The slot of a literal holds what the literal means. -/
theorem slot_literal (remembers : e.Remembers scope store memory) (serves : e.Serves text scope)
    {value : Datum} (known : value.IsLiteral Number.IsNumber)
    (inside : .literal position value ∈ text.nodes) :
    memory[(literalAddress scope value).toNat]? = some (e.setting.literal text value) := by
  have isKeyed : isKeyed (.literal position value) := isKeyed_of_expression (.literal known)
  rcases (serves.serves.answers inside isKeyed).names with ⟨key, keyed, hasSlot⟩
  cases value with
  | number number =>
      rcases remembers.slot_keyed serves keyed hasSlot with ⟨slot, datum, found, content, _, held⟩
      have written : number ∈ Node.numbers text.nodes := List.mem_filterMap.2 ⟨_, inside, rfl⟩
      rcases constant_number serves.serves known written with
        ⟨same, other, sameKey, otherFound, otherContent⟩
      rw [keyed] at sameKey
      cases sameKey
      rw [found] at otherFound
      cases otherFound
      rw [content] at otherContent
      cases otherContent
      have pooled := e.pooled text serves.known number written
      rw [held]
      exact congrArg (fun number => some (Value.number number)) pooled.symm
  | empty | bool | text | atom => exact remembers.slot_scalar serves keyed (by simp) hasSlot
  | absent | list | dict | function => cases known

/-- The slot of a name that is no variable holds the function that it stands for. -/
theorem slot_found (remembers : e.Remembers scope store memory) (serves : e.Serves text scope)
    {resolved : Option (ConstantKey × FunctionRef)} {constant : ConstantKey × FunctionRef}
    (resolves : resolved = some constant) (hasSlot : scope.HasSlot constant.1) {value : Value}
    (means : ∀ datum, constant.1.Means e.functions datum →
      (Value.ofScalar (linkConstant e.linked datum)).orEmpty = value) :
    memory[(foundAddress scope resolved).toNat]? = some value := by
  rcases serves.serves.slot_means hasSlot with ⟨slot, datum, found, word, content, isMeant⟩
  have address : (foundAddress scope resolved).toNat = slot := by
    rw [foundAddress, resolves, Option.bind_some, found, Option.getD_some, word]
  rw [address, remembers.constants slot datum content, means datum isMeant]

theorem slot_native (remembers : e.Remembers scope store memory) (serves : e.Serves text scope)
    {name full : String} (known : e.natives name = some full)
    (hasSlot : scope.HasSlot (.function full true)) :
    memory[(foundAddress scope (resolveNative e.natives name)).toNat]? =
      some (.function { name := full, native := true, arity := -1 }) := by
  have resolves : resolveNative e.natives name =
      some (.function full true, { name := full, native := true, arity := -1 }) := by
    rw [resolveNative, known]
    rfl
  refine remembers.slot_found serves resolves hasSlot ?_
  rintro datum rfl
  rfl

/-- The slot of a name holds what the name means. -/
theorem slot_name (remembers : e.Remembers scope store memory) (serves : e.Serves text scope)
    (scopeEq : place.scope = scope) (natives : place.natives = e.natives) {node : Node}
    (named : node.IsName) (inside : node ∈ text.nodes) :
    memory[(nameAddress e.functions place node).toNat]? =
      some (e.setting.meaning text store node) := by
  have answers := serves.serves.answers inside (isKeyed_of_expression (.name named))
  cases named with
  | path position parts =>
      rcases answers.names with ⟨constant, resolved, hasSlot⟩
      rcases Option.map_eq_some_iff.1 resolved with ⟨full, known, rfl⟩
      rw [nameAddress, scopeEq, natives, Setting.meaning, Setting.nativeValue,
        remembers.slot_native serves known hasSlot]
      simp only [setting, known]
  | symbol position name =>
      have binds : text.binds name = (scope.variableSlot? name).isSome :=
        (congrFun (serves.serves.binds_eq text) name).symm
      rw [nameAddress, scopeEq, natives, Setting.meaning, binds]
      cases declared : scope.variableSlot? name with
      | some slot => exact remembers.slot_variable serves ⟨slot, declared⟩
      | none =>
          rcases answers.names declared with ⟨constant, resolved, hasSlot⟩
          simp only [Option.isSome_none, Bool.false_eq_true, if_false]
          cases known : e.functions.find? name with
          | some ref =>
              simp only [resolveFunction, known] at resolved ⊢
              cases resolved
              refine remembers.slot_found serves rfl hasSlot ?_
              rintro datum ⟨own, ownKnown, rfl⟩
              rcases e.compiled.linkConstant_own e.shaped ownKnown with
                ⟨linked, member, linkedName, link⟩
              rw [Execution.linked, link, functionValue_own member linkedName]
              rfl
          | none =>
              simp only [resolveFunction, known] at resolved ⊢
              rcases Option.map_eq_some_iff.1 resolved with ⟨full, native, rfl⟩
              rw [functionValue_native known native]
              exact remembers.slot_native serves native hasSlot

/-- Writing the slot of a variable assigns the variable. -/
theorem assign (remembers : e.Remembers scope store memory) (serves : e.Serves text scope)
    {name : String} (declared : ∃ slot, scope.variableSlot? name = some slot) (value : Value) :
    e.Remembers scope (fun other => if other = name then value else store other)
      (memory.setIfInBounds (variableAddress scope name).toNat value) := by
  rcases declared with ⟨slot, found⟩
  have bounded := serves.serves.bounded
  have behind := (bounded.variableSlots name slot found).1
  rw [bounded.toNat_variableAddress found]
  constructor
  · intro place datum content
    have inside := (Array.getElem?_eq_some_iff.1 content).1
    rw [Array.getElem?_setIfInBounds_ne (by omega)]
    exact remembers.constants place datum content
  · intro other place otherFound
    by_cases same : other = name
    · subst same
      rw [found] at otherFound
      cases otherFound
      have held := remembers.locals other slot found
      have inside := (Array.getElem?_eq_some_iff.1 held).1
      rw [Array.getElem?_setIfInBounds_self_of_lt inside, if_pos rfl]
    · have apart : slot ≠ place := by
        rintro rfl
        exact same (bounded.distinct other name slot otherFound found)
      rw [Array.getElem?_setIfInBounds_ne apart, if_neg same]
      exact remembers.locals other place otherFound

end Execution.Remembers

section Fresh

variable {text : ScopeText} {scope : Scope} {index arity : Nat} {name : String}

theorem size_freshMemory (storage : Storage) :
    (Machine.freshMemory storage).size = storage.size := by
  simp [Machine.freshMemory, Storage.initialMemory, Storage.size]

theorem freshMemory_constant {linked : Functions} {slot : Nat} {datum : Datum}
    (content : scope.constants[slot]? = some datum) :
    (Machine.freshMemory (storageOf linked index name arity scope))[slot]? =
      some (Value.ofScalar (linkConstant linked datum)).orEmpty := by
  have inside := (Array.getElem?_eq_some_iff.1 content).1
  rw [Machine.freshMemory, Storage.initialMemory, Array.getElem?_map,
    Array.getElem?_append_left (by simpa [storageOf] using inside)]
  simp [storageOf, content]

theorem freshMemory_variable {linked : Functions} {place : Nat}
    (inside : place < scope.locals.size) :
    (Machine.freshMemory (storageOf linked index name arity scope))[scope.constants.size + place]? =
      some .empty := by
  have size : (storageOf linked index name arity scope).constants.size = scope.constants.size := by
    simp [storageOf]
  rw [Machine.freshMemory, Storage.initialMemory, Array.getElem?_map,
    Array.getElem?_append_right (by omega), size, Nat.add_sub_cancel_left]
  simp only [storageOf, Array.getElem?_replicate, inside, if_true]
  rfl

theorem orEmpty_orEmpty (value : Value) : value.orEmpty.orEmpty = value.orEmpty := by
  cases value <;> rfl

/-- In a fresh memory all variables are empty. -/
theorem remembers_fresh (serves : e.Serves text scope) :
    e.Remembers scope (fun _ => .empty)
      ((Machine.freshMemory (storageOf e.linked index name arity scope)).map Value.orEmpty) := by
  constructor
  · intro slot datum content
    rw [Array.getElem?_map, freshMemory_constant content, Option.map_some, orEmpty_orEmpty]
  · intro declared slot found
    rcases (serves.serves.holdsVariables.slot_iff declared slot).1 found with ⟨place, rfl, listed⟩
    have inside := (List.getElem?_eq_some_iff.1 listed).1
    rw [Array.length_toList] at inside
    rw [Array.getElem?_map, freshMemory_variable inside]
    rfl

/-- Parameters get their arguments by position. -/
theorem boundStore_eq {params : List String} {args : List Value} (distinct : params.Nodup)
    (length : args.length = params.length) {place : Nat} {param : String}
    (found : params[place]? = some param) : args[place]? = some (boundStore params args param) := by
  induction params generalizing args place with
  | nil => cases found
  | cons first rest ih =>
      rcases List.nodup_cons.1 distinct with ⟨notRepeated, restDistinct⟩
      cases args with
      | nil => cases length
      | cons arg others =>
          cases place with
          | zero =>
              cases found
              simp [boundStore]
          | succ place =>
              have member : param ∈ rest := List.mem_of_getElem? found
              have apart : param ≠ first := fun same => notRepeated (same ▸ member)
              have later := ih restDistinct (Nat.succ.inj length) found
              have differs : (param == first) = false := by simpa using apart
              rw [List.getElem?_cons_succ, later]
              simp only [boundStore, List.zip_cons_cons, List.lookup_cons, differs]

theorem boundStore_of_not_mem {params : List String} {param : String} (absent : param ∉ params)
    (args : List Value) : boundStore params args param = .empty := by
  have unknown : (params.zip args).lookup param = none := by
    rw [List.lookup_eq_none_iff]
    rintro ⟨other, arg⟩ member
    have listed := (List.of_mem_zip member).1
    simpa using fun same : param = other => absent (same ▸ listed)
  rw [boundStore, unknown]
  rfl

theorem getElem?_spliced (fresh args : Array Value) {first : Nat}
    (room : first + args.size ≤ fresh.size) (slot : Nat) :
    (fresh.extract 0 first ++ args ++ fresh.extract (first + args.size) fresh.size)[slot]? =
      if first ≤ slot ∧ slot < first + args.size then args[slot - first]? else fresh[slot]? := by
  have front : (fresh.extract 0 first).size = first := by
    rw [Array.size_extract]
    omega
  by_cases behind : slot < first + args.size
  · rw [Array.getElem?_append_left (by rw [Array.size_append]; omega)]
    by_cases early : slot < first
    · rw [Array.getElem?_append_left (by omega), if_neg (by omega), Array.getElem?_extract,
        if_pos (by omega), Nat.zero_add]
    · rw [Array.getElem?_append_right (by omega), if_pos (by omega), front]
  · rw [Array.getElem?_append_right (by rw [Array.size_append]; omega), if_neg (by omega),
      Array.getElem?_extract, Array.size_append, front]
    by_cases last : slot < fresh.size
    · rw [if_pos (by omega), Nat.add_sub_cancel' (by omega)]
    · rw [if_neg (by omega), Array.getElem?_eq_none (by omega)]

/-- The memory of a call holds the arguments in front of the other variables. -/
theorem remembers_call (serves : e.Serves text scope) (distinct : text.params.Nodup)
    {args : Array Value} (count : args.size = text.params.length) {fresh : Array Value}
    (isFresh : fresh = Machine.freshMemory (storageOf e.linked index name arity scope)) :
    e.Remembers scope (boundStore text.params args.toList)
      (fresh.extract 0 scope.constants.size ++ args ++
        fresh.extract (scope.constants.size + args.size) fresh.size) := by
  have paramsFirst := serves.serves.paramsFirst distinct
  have room : scope.constants.size + args.size ≤ fresh.size := by
    have fewer := paramsFirst.length_le
    rw [Array.length_toList] at fewer
    rw [isFresh, size_freshMemory, Storage.size]
    simp only [storageOf, Array.size_map]
    omega
  constructor
  · intro slot datum content
    have inside := (Array.getElem?_eq_some_iff.1 content).1
    rw [getElem?_spliced fresh args room, if_neg (by omega), isFresh]
    exact freshMemory_constant content
  · intro declared slot found
    have holds := serves.serves.holdsVariables
    rcases (holds.slot_iff declared slot).1 found with ⟨place, rfl, listed⟩
    have inside := (List.getElem?_eq_some_iff.1 listed).1
    rw [Array.length_toList] at inside
    rw [getElem?_spliced fresh args room, Nat.add_sub_cancel_left]
    have sameName : ∀ (other : Nat) (within : other < text.params.length),
        scope.locals.toList[other]? = some text.params[other] :=
      List.prefix_iff_getElem?.1 paramsFirst
    by_cases isParam : place < text.params.length
    · have param : text.params[place]? = some declared := by
        rw [List.getElem?_eq_getElem isParam, ← sameName place isParam, listed]
      rw [if_pos (by omega), ← Array.getElem?_toList]
      exact boundStore_eq distinct (by simpa using count) param
    · have absent : declared ∉ text.params := by
        intro member
        rcases List.mem_iff_getElem.1 member with ⟨other, within, same⟩
        have elsewhere := sameName other within
        rw [same] at elsewhere
        have places := (holds.indexes declared other).2 elsewhere
        rw [(holds.indexes declared place).2 listed] at places
        cases places
        exact isParam within
      rw [if_neg (by omega), boundStore_of_not_mem absent, isFresh]
      exact freshMemory_variable inside

end Fresh

end Meaning

end Lehce
