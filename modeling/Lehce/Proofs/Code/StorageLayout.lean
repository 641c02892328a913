import Lehce.Proofs.Code.Metered
import Lehce.Proofs.Meaning.Memory

/-!
# Layout of storages

The storages of a compiled program are those of its top level and of its functions, in the
order of the definitions. A storage has its constants first, no two of them under one key, and
then the variables of its scope, each where it is declared first, parameters in front.
-/

namespace Lehce.Code

/-- The key under which a storage keeps a constant. -/
def ConstantKey.of? : Datum → Option ConstantKey
  | .function ref => some (.function ref.name ref.native)
  | datum => ofDatum? datum

/-- How a storage is laid out for a scope of a program. -/
structure Storage.LaysOut (storage : Storage) (text : ScopeText) : Prop where
  name : storage.name = text.name
  arity : storage.arity = text.params.length
  keys : ∃ keys : List ConstantKey, keys.Nodup ∧
    storage.constants.toList.map ConstantKey.of? = keys.map some
  locals : storage.locals.toList = (scopeVariables text.params text.body).eraseDups
  distinct : storage.locals.toList.Nodup
  params : text.params <+: storage.locals.toList
  slots : ∀ name slot, storage.slot? name = some slot ↔
    ∃ place, slot = storage.constants.size + place ∧ storage.locals[place]? = some name

/-- How a unit is laid out for a program: which scope and which function each storage is for. -/
structure Unit.LaysOut (unit : Unit) (program : Program) : Prop where
  storages : List.Forall₂ Storage.LaysOut unit.storages.toList (scopeTexts program)
  numbers : ∀ (number : Nat) (storage : Storage), unit.storages[number]? = some storage →
    storage.index = number
  owner : ∀ (number : Nat) (storage : Storage), unit.storages[number]? = some storage →
    0 < number → ∃ ref ∈ unit.functions, ref.storage = number ∧ ref.name = storage.name ∧
      ref.arity = storage.arity ∧
      ∀ other ∈ unit.functions, other.storage = number ∨ other.name = storage.name → other = ref

section Constants

variable {functions : Functions} {natives : Resolver} {program : Program} {top : Scope}
  {rest : List Scope} {unit : Unit}

/-- A constant is linked to one with the same key. -/
theorem of?_linkConstant (shaped : program.IsShaped Number.IsNumber)
    (compiled : Compiled natives program functions top rest unit) {key : ConstantKey}
    {datum : Datum} (means : key.Means functions datum) :
    ConstantKey.of? (linkConstant (functions.setEntries (programBodies program)) datum) =
      some key := by
  cases key with
  | function name native =>
      cases native with
      | false =>
          rcases means with ⟨ref, known, rfl⟩
          rcases compiled.linkConstant_own shaped known with ⟨linked, member, rfl, same⟩
          rcases (compiled.mem_functions_iff shaped).1 member with ⟨number, body, _, rfl⟩
          rw [same]
          rfl
      | true =>
          cases means
          rfl
  | _ =>
      have keyed := means
      cases datum with
      | function => cases keyed
      | _ => exact keyed

/-- A scope has one constant for each of its keys. -/
theorem Scope.Serves.keys {params : List String} {body : List Node} {scope : Scope}
    (serves : scope.Serves functions natives params body) :
    ∃ keys : List ConstantKey, keys.Nodup ∧
      List.Forall₂ (fun key datum => key.Means functions datum) keys scope.constants.toList := by
  rcases serves.holdsConstants with ⟨keys, indexes, sizes, mem_iff, kept⟩
  refine ⟨keys, indexes.nodup, List.forall₂_iff_get.2 ⟨by simpa using sizes, ?_⟩⟩
  intro place inside behind
  have found := kept place keys[place] (List.getElem?_eq_getElem inside)
  rw [Array.length_toList] at behind
  rw [Array.getElem?_eq_getElem behind] at found
  rcases List.lookup_eq_some_iff.1 found.symm with ⟨front, back, split, _⟩
  have member : (keys[place], scope.constants[place]) ∈
      scopeConstants functions natives params body := by
    rw [split]
    simp
  rcases List.mem_flatMap.1 member with ⟨node, _, inNode⟩
  exact means_of_mem_nodeConstants inNode

end Constants

/-- Where a name stands in a list without repetitions. -/
theorem idxOf?_eq_some_iff_of_nodup {names : List String} (distinct : names.Nodup) (name : String)
    (place : Nat) : names.idxOf? name = some place ↔ names[place]? = some name := by
  rw [List.idxOf?_eq_some_iff, List.getElem?_eq_some_iff]
  constructor
  · rintro ⟨inside, found, _⟩
    exact ⟨inside, found⟩
  · rintro ⟨inside, found⟩
    refine ⟨inside, found, fun earlier before same => ?_⟩
    have places : earlier = place := distinct.getElem_inj_iff.1 (same.trans found.symm)
    omega

/-- Distinct variables have the slots behind the constants, one each. -/
theorem Storage.slot?_eq_some_iff {storage : Storage} (distinct : storage.locals.toList.Nodup)
    (name : String) (slot : Nat) : storage.slot? name = some slot ↔
      ∃ place, slot = storage.constants.size + place ∧ storage.locals[place]? = some name := by
  have reversed := idxOf?_eq_some_iff_of_nodup (List.nodup_reverse.2 distinct) name
  have count : storage.locals.toList.length = storage.locals.size := Array.length_toList
  rw [slot?, Option.map_eq_some_iff]
  constructor
  · rintro ⟨place, found, rfl⟩
    have standing := (reversed place).1 found
    have inside := (List.getElem?_eq_some_iff.1 standing).1
    rw [List.length_reverse] at inside
    rw [List.getElem?_reverse inside, Array.getElem?_toList] at standing
    refine ⟨_, ?_, standing⟩
    rw [size]
    omega
  · rintro ⟨place, rfl, standing⟩
    have inside := (Array.getElem?_eq_some_iff.1 standing).1
    refine ⟨storage.locals.size - 1 - place, (reversed _).2 ?_, ?_⟩
    · rw [List.getElem?_reverse (by omega), Array.getElem?_toList, count, ← standing]
      congr 1
      omega
    · rw [size]
      omega

section Layout

variable {functions : Functions} {natives : Resolver} {program : Program} {top : Scope}
  {rest : List Scope} {unit : Unit}

/-- The storage of a scope that serves a text is laid out for it. -/
theorem Scope.Serves.laysOut (shaped : program.IsShaped Number.IsNumber)
    (compiled : Compiled natives program functions top rest unit) (text : ScopeText)
    {scope : Scope} (serves : scope.Serves functions natives text.params text.body)
    (distinctParams : text.params.Nodup) (index : Nat) :
    (storageOf (functions.setEntries (programBodies program)) index text.name text.params.length
      scope).LaysOut text := by
  have distinct := serves.holdsVariables.indexes.nodup
  refine ⟨rfl, rfl, ?_, serves.ordered, distinct, serves.paramsFirst distinctParams,
    Storage.slot?_eq_some_iff distinct⟩
  rcases serves.keys with ⟨keys, keysDistinct, means⟩
  refine ⟨keys, keysDistinct, ?_⟩
  simp only [storageOf, Array.toList_map, List.map_map]
  generalize scope.constants.toList = constants at means
  clear keysDistinct
  induction means with
  | nil => rfl
  | cons meant _ ih =>
      rw [List.map_cons, List.map_cons, ih, Function.comp_apply,
        of?_linkConstant shaped compiled meant]

/-- Each storage of a compiled program is that of a scope, and is laid out for it. -/
theorem Compiled.exists_text (shaped : program.IsShaped Number.IsNumber)
    (compiled : Compiled natives program functions top rest unit) {number : Nat}
    {storage : Storage} (found : unit.storages[number]? = some storage) :
    ∃ text, (scopeTexts program)[number]? = some text ∧ storage.LaysOut text ∧
      storage.index = number := by
  cases number with
  | zero =>
      rw [compiled.storage_top] at found
      cases found
      exact ⟨topText program, rfl, Scope.Serves.laysOut shaped compiled (topText program)
        compiled.topServes List.nodup_nil 0, rfl⟩
  | succ number =>
      have inside := (Array.getElem?_eq_some_iff.1 found).1
      rw [← Array.length_toList, compiled.storages_eq] at inside
      have listed : number < (definitions program).length := by
        simp only [storageNames, List.length_map, List.length_zipIdx, List.length_zip,
          List.length_cons] at inside
        omega
      have definitionFound := List.getElem?_eq_getElem listed
      rcases innerPlace_serves top compiled.lists compiled.serves definitionFound with
        ⟨scope, scopeFound, _, serves⟩
      rw [compiled.storage_inner definitionFound scopeFound] at found
      cases found
      have member := List.getElem_mem listed
      refine ⟨_, by rw [scopeTexts, List.getElem?_cons_succ, List.getElem?_map, definitionFound]; rfl,
        Scope.Serves.laysOut shaped compiled (definitions program)[number].text serves
          (shaped_definitions shaped _ member).distinct _, rfl⟩

theorem Compiled.length_storages (compiled : Compiled natives program functions top rest unit) :
    unit.storages.toList.length = (scopeTexts program).length := by
  have count := compiled.serves.length_eq
  rw [compiled.storages_eq]
  simp [storageNames, scopeTexts, count]

/-- A compiled program has one function for each storage but the first. -/
theorem Compiled.exists_owner (shaped : program.IsShaped Number.IsNumber)
    (compiled : Compiled natives program functions top rest unit) {number : Nat}
    {storage : Storage} (found : unit.storages[number + 1]? = some storage) :
    ∃ ref ∈ unit.functions, ref.storage = (number + 1 : Nat) ∧ ref.name = storage.name ∧
      ref.arity = storage.arity ∧ ∀ other ∈ unit.functions,
        other.storage = (number + 1 : Nat) ∨ other.name = storage.name → other = ref := by
  rcases compiled.exists_text shaped found with ⟨text, textFound, laysOut, _⟩
  rw [scopeTexts, List.getElem?_cons_succ, List.getElem?_map, Option.map_eq_some_iff] at textFound
  rcases textFound with ⟨definition, definitionFound, rfl⟩
  rw [← programBodies_definitions shaped, List.getElem?_map, Option.map_eq_some_iff]
    at definitionFound
  rcases definitionFound with ⟨body, bodyFound, rfl⟩
  refine ⟨body.ref number, (compiled.mem_functions_iff shaped).2 ⟨number, body, bodyFound, rfl⟩,
    rfl, laysOut.name.symm, laysOut.arity.symm, ?_⟩
  intro other member same
  rcases (compiled.mem_functions_iff shaped).1 member with ⟨place, otherBody, otherFound, rfl⟩
  have places : place = number := by
    rcases same with storages | names
    · simp only [Body.ref, definitionRef] at storages
      omega
    · have known := definition_of_body shaped bodyFound
      have otherKnown := definition_of_body shaped otherFound
      have indexes := compiled.lists.indexes body.definition.name
      have otherName : otherBody.definition.name = body.definition.name :=
        names.trans laysOut.name
      have here := (indexes number).2 (by rw [List.getElem?_map, known]; rfl)
      have there := (indexes place).2 (by rw [List.getElem?_map, otherKnown, ← otherName]; rfl)
      rw [here] at there
      exact (Option.some.inj there).symm
  subst places
  rw [bodyFound] at otherFound
  cases otherFound
  rfl

/-- A compiled program is laid out for its scopes. -/
theorem Compiled.laysOut (shaped : program.IsShaped Number.IsNumber)
    (compiled : Compiled natives program functions top rest unit) : unit.LaysOut program where
  storages := by
    refine List.forall₂_iff_get.2 ⟨compiled.length_storages, fun number inside behind => ?_⟩
    have found : unit.storages[number]? = some (unit.storages.toList.get ⟨number, inside⟩) := by
      rw [← Array.getElem?_toList]
      exact List.getElem?_eq_getElem inside
    rcases compiled.exists_text shaped found with ⟨text, textFound, laysOut, _⟩
    rw [List.getElem?_eq_getElem behind] at textFound
    cases textFound
    exact laysOut
  numbers number storage found := by
    rcases compiled.exists_text shaped found with ⟨_, _, _, index⟩
    exact index
  owner number storage found positive := by
    rcases Nat.exists_eq_add_one_of_ne_zero (Nat.ne_of_gt positive) with ⟨before, rfl⟩
    exact compiled.exists_owner shaped found

end Layout

end Lehce.Code
