import Lehce.Proofs.Code.Metered
import Lehce.Proofs.Image.Relinking
import Lehce.Proofs.Image.RoundTrip

/-!
# Compiled programs are loaded as they were saved

The constants of a compiled program are scalars, functions of the program and native functions
by their full names, and everything in it is small enough for an image. So a compiled program
is saved, and what is loaded from its image has the same code, storages and functions, is saved
as the same bytes again, and runs alike: with the same output, faults, operands and variables.
All this holds of every codec that is faithful.
-/

namespace Lehce

/-- The full name of a native function stands for itself. -/
theorem Registry.resolve_full {registry : Registry} {name full : String}
    (resolved : registry.resolve name = some full) : registry.resolve full = some full := by
  unfold Registry.resolve at resolved
  split at resolved
  · rename_i known
    cases resolved
    rw [Registry.resolve, if_pos known]
  · split at resolved
    · cases resolved
    · simp only at resolved
      split at resolved
      · rename_i known
        cases resolved
        rw [Registry.resolve, if_pos known]
      · cases resolved

namespace Code

section Count

mutual

theorem length_statementBodies (drops : Bool) (start : Nat) : (node : Node) →
    (statementBodies drops start node).length ≤ node.statementSize drops
  | .branch _ condition _ body none => by
      have inner := length_statementsBodies drops (start + condition.expressionSize + 3) body
      simp only [statementBodies, Node.statementSize, List.append_nil]
      omega
  | .branch _ condition _ body (some other) => by
      have inner := length_statementsBodies drops (start + condition.expressionSize + 3) body
      have outer := length_statementBodies drops
        (start + condition.expressionSize + 3 + Node.statementsSize drops body + 3) other
      simp only [statementBodies, Node.statementSize, List.length_append]
      omega
  | .whileLoop _ condition _ body => by
      have inner := length_statementsBodies true (start + condition.expressionSize + 3) body
      simp only [statementBodies, Node.statementSize]
      omega
  | .endlessLoop _ _ body => by
      have inner := length_statementsBodies true start body
      simp only [statementBodies, Node.statementSize]
      omega
  | .function _ _ _ _ body => by
      have inner := length_statementsBodies true (start + 3) body
      simp only [statementBodies, Node.statementSize, List.length_cons]
      omega
  | .block _ items => by
      have inner := length_statementsBodies drops start items
      simpa only [statementBodies, Node.statementSize] using inner
  | .binary .. | .control .. | .assignment .. | .list .. | .call .. | .dict .. | .prefixed ..
  | .suffixed .. | .index .. | .returns .. | .literal .. | .symbol .. | .path .. | .breaks ..
  | .continues .. | .nothing .. => by simp [statementBodies]

/-- Every function takes some room in the code. -/
theorem length_statementsBodies (drops : Bool) (start : Nat) : (nodes : List Node) →
    (statementsBodies drops start nodes).length ≤ Node.statementsSize drops nodes
  | [] => by simp [statementsBodies]
  | node :: rest => by
      have first := length_statementBodies drops start node
      have others := length_statementsBodies drops (start + node.statementSize drops) rest
      simp only [statementsBodies, Node.statementsSize, List.length_append]
      omega

end

end Count

section Contents

variable {natives : Resolver} {program : Program} {functions : Functions} {top : Scope}
  {rest : List Scope} {unit : Unit}

theorem Compiled.size_storages (compiled : Compiled natives program functions top rest unit) :
    unit.storages.size = (definitions program).length + 1 := by
  have served := compiled.serves.length_eq
  rw [← Array.length_toList, compiled.storages_eq]
  simp [storageNames, ← served]

/-- Every storage is that of a scope. -/
theorem Compiled.exists_scope (compiled : Compiled natives program functions top rest unit)
    {number : Nat} {storage : Storage} (found : unit.storages[number]? = some storage) :
    ∃ text ∈ scopeTexts program, ∃ scope : Scope,
      scope.Serves functions natives text.params text.body ∧
      storage = storageOf (functions.setEntries (programBodies program)) number text.name
        text.params.length scope := by
  cases number with
  | zero =>
      rw [compiled.storage_top] at found
      cases found
      exact ⟨topText program, List.mem_cons_self, top, compiled.topServes, rfl⟩
  | succ number =>
      have inside := (Array.getElem?_eq_some_iff.1 found).1
      rw [compiled.size_storages] at inside
      have listed : (definitions program)[number]? = some (definitions program)[number] :=
        List.getElem?_eq_getElem (by omega)
      rcases innerPlace_serves top compiled.lists compiled.serves listed with
        ⟨scope, scopeFound, _, serves⟩
      rw [compiled.storage_inner listed scopeFound] at found
      cases found
      exact ⟨(definitions program)[number].text, mem_scopeTexts (List.getElem_mem _), scope, serves,
        rfl⟩

theorem Compiled.exists_scope_of_mem (compiled : Compiled natives program functions top rest unit)
    {storage : Storage} (member : storage ∈ unit.storages) :
    ∃ text ∈ scopeTexts program, ∃ (number : Nat) (scope : Scope),
      scope.Serves functions natives text.params text.body ∧
      storage = storageOf (functions.setEntries (programBodies program)) number text.name
        text.params.length scope := by
  rcases Array.mem_iff_getElem?.1 member with ⟨number, found⟩
  rcases compiled.exists_scope found with ⟨text, textMember, scope, serves, same⟩
  exact ⟨text, textMember, number, scope, serves, same⟩

/-- The functions of a compiled program in their order. -/
theorem Compiled.functions_eq_mapIdx (shaped : program.IsShaped Number.IsNumber)
    (compiled : Compiled natives program functions top rest unit) :
    unit.functions = (programBodies program).mapIdx fun number body => body.ref number := by
  have lists := compiled.lists_bodies shaped
  have count := congrArg List.length lists.refs
  simp only [List.length_mapIdx, List.length_map, Array.length_toList] at count
  rw [compiled.functions_eq]
  apply List.ext_getElem?
  intro number
  rw [Array.getElem?_toList, List.getElem?_mapIdx]
  cases found : (programBodies program)[number]? with
  | some body => exact lists.refs_setEntries found
  | none =>
      rw [List.getElem?_eq_none_iff] at found
      rw [Option.map_none, Array.getElem?_eq_none_iff, Functions.size_setEntries, count]
      exact found

theorem Compiled.length_definitions (shaped : program.IsShaped Number.IsNumber)
    (compiled : Compiled natives program functions top rest unit) :
    (definitions program).length ≤ maxOperand := by
  have bodies := length_statementsBodies false 0 program.items
  have small := compiled.small
  rw [← programBodies_definitions shaped, List.length_map]
  exact bodies.trans small

/-- The functions of a compiled program are found again by their names. -/
theorem Compiled.relinks (shaped : program.IsShaped Number.IsNumber)
    (resolves : ∀ name full, natives name = some full → natives full = some full)
    (compiled : Compiled natives program functions top rest unit) : unit.Relinks natives where
  numbered number storage found := by
    rcases compiled.exists_scope found with ⟨_, _, _, _, rfl⟩
    rfl
  own ref member := by
    rcases (compiled.mem_functions_iff shaped).1 member with ⟨number, body, _, rfl⟩
    rfl
  distinct := by
    have names : unit.functions.map (·.name) = (definitions program).map (·.name) := by
      rw [compiled.functions_eq_mapIdx shaped, ← programBodies_definitions shaped]
      apply List.ext_getElem?
      intro number
      simp only [List.getElem?_map, List.getElem?_mapIdx]
      cases (programBodies program)[number]? <;> rfl
    rw [names]
    exact compiled.lists.indexes.nodup
  constants storage member datum datumMember := by
    rcases compiled.exists_scope_of_mem member with ⟨text, _, number, scope, serves, rfl⟩
    rcases serves.exists_node datumMember with ⟨node, _, value, contributes, rfl⟩
    cases contributes with
    | literal scalar =>
        cases value with
        | absent | list | dict | function => cases scalar
        | _ => constructor
    | nothing => exact .empty
    | key listed => exact .text _
    | native found | path found => exact .native (resolves _ _ found)
    | function found =>
        rcases compiled.linkConstant_own shaped found with ⟨linked, linkedMember, _, same⟩
        rcases (compiled.mem_functions_iff shaped).1 linkedMember with ⟨_, body, _, rfl⟩
        rw [same]
        exact .function rfl linkedMember

/-- Parameters have slots, so there are few of them. -/
theorem length_params (shaped : program.IsShaped Number.IsNumber) {text : ScopeText}
    (member : text ∈ scopeTexts program) {scope : Scope}
    (serves : scope.Serves functions natives text.params text.body) :
    text.params.length ≤ maxOperand := by
  have distinct : text.params.Nodup := by
    rcases List.mem_cons.1 member with rfl | inner
    · exact List.nodup_nil
    · rcases List.mem_map.1 inner with ⟨definition, listed, rfl⟩
      exact (shaped_definitions shaped definition listed).distinct
  have slots := (serves.paramsFirst distinct).length_le
  have fits := serves.fits
  rw [Array.length_toList] at slots
  omega

theorem fitsInt64_ofNat {n : Nat} (small : n ≤ maxOperand + 1) : Number.fitsInt64 n := by
  unfold maxOperand at small
  rw [Number.fitsInt64_iff]
  omega

/-- A compiled program is small enough for an image. -/
theorem Compiled.isSmall (shaped : program.IsShaped Number.IsNumber)
    (compiled : Compiled natives program functions top rest unit)
    (texts : ∀ text ∈ unit.texts, Text.IsShort text) : unit.IsSmall where
  code := by
    have small := compiled.small
    have size := compiled.size
    unfold maxOperand at small
    omega
  fewStorages := by
    have few := compiled.length_definitions shaped
    unfold maxOperand at few
    rw [compiled.size_storages, Cbor.maxCount]
    omega
  fewSlots storage member := by
    rcases compiled.exists_scope_of_mem member with ⟨text, _, number, scope, serves, rfl⟩
    have fits := serves.fits
    unfold maxOperand at fits
    simp only [Storage.size, storageOf, Array.size_map, Cbor.maxCount]
    omega
  arity storage member := by
    rcases compiled.exists_scope_of_mem member with ⟨text, textMember, number, scope, serves, rfl⟩
    exact fitsInt64_ofNat (Nat.le_succ_of_le (length_params shaped textMember serves))
  fewFunctions := by
    have few := compiled.length_definitions shaped
    unfold maxOperand at few
    rw [compiled.functions_eq_mapIdx shaped, List.length_mapIdx, Cbor.maxCount]
    rw [← programBodies_definitions shaped, List.length_map] at few
    omega
  functions ref member := by
    rcases (compiled.mem_functions_iff shaped).1 member with ⟨number, body, found, rfl⟩
    have few := compiled.length_definitions shaped
    have small := compiled.small
    have listed := definition_of_body shaped found
    have inside := (List.getElem?_eq_some_iff.1 listed).1
    have region := (compiled.laid shaped).regions body (List.mem_of_getElem? found)
    have start := region.last
    have stop := region.inside
    rw [size_program shaped] at stop
    rcases innerPlace_serves top compiled.lists compiled.serves listed with ⟨scope, _, _, serves⟩
    refine ⟨fitsInt64_ofNat (by omega), ?_, ?_⟩
    · exact fitsInt64_ofNat (by omega : number + 1 ≤ maxOperand + 1)
    · exact fitsInt64_ofNat (Nat.le_succ_of_le (length_params shaped
        (mem_scopeTexts (List.mem_of_getElem? listed)) serves))
  texts := texts

theorem Compiled.fits_image (shaped : program.IsShaped Number.IsNumber)
    (compiled : Compiled natives program functions top rest unit)
    (texts : ∀ text ∈ unit.texts, Text.IsShort text)
    (zeros : ∀ storage ∈ unit.storages, Datum.number (-0) ∉ storage.constants) : unit.Fits :=
  { compiled.isSmall shaped texts with zeros }

/--
A compiled program is saved by a faithful codec, and loaded with the same code, the same storages
and the same functions, each of which has its name alone. What was loaded is saved as the same
bytes, and runs as the program does, whatever the setup, the memory of the top level and the
input. The bound on texts is that of all strings, which a machine counts with a signed 64-bit
integer.
-/
theorem compiled_load_save {codec : Image.Codec} (faithful : codec.IsFaithful) {source : String}
    (read : Program.ofSource source = .ok program) {registry : Registry}
    (compiles : compile registry.resolve program = .ok unit)
    (zeros : ∀ storage ∈ unit.storages, Datum.number (-0) ∉ storage.constants)
    (texts : ∀ text ∈ unit.texts, Text.IsShort text) :
    ∃ bytes loaded, Image.save codec unit = .ok bytes ∧
      Image.load codec registry.resolve bytes = .ok loaded ∧
      loaded.opcodes = unit.opcodes ∧ loaded.storages = unit.storages ∧
      loaded.functions.Perm unit.functions ∧ (unit.functions.map (·.name)).Nodup ∧
      Image.save codec loaded = .ok bytes ∧
      loaded.freshMemory? = unit.freshMemory? ∧
      ∀ setup memory host, loaded.run setup memory host = unit.run setup memory host := by
  have shaped := Program.isShaped_ofSource read
  have spec := compile_spec registry.resolve shaped
  rw [compiles] at spec
  rcases spec with ⟨functions, top, rest, compiled⟩
  have relinks := compiled.relinks shaped fun _ _ => Registry.resolve_full
  rcases Image.load_save faithful relinks (compiled.fits_image shaped texts zeros) with
    ⟨bytes, saves, loads, again⟩
  have code : (Image.reloaded unit).opcodes = unit.opcodes := rfl
  have storages : (Image.reloaded unit).storages = unit.storages := rfl
  exact ⟨bytes, Image.reloaded unit, saves, loads, code, storages,
    Image.perm_functions_reloaded relinks.own, relinks.distinct, again, rfl,
    Unit.run_congr code storages⟩

end Contents

section Sources

variable {natives : Resolver} {program : Program} {functions : Functions} {top : Scope}
  {rest : List Scope} {unit : Unit}

/-- The texts that a node may add to the constants of its scope. -/
def nodeTexts (natives : Resolver) : Node → List String
  | .literal _ value => value.texts
  | .dict _ entries => entries.map (·.1)
  | .symbol _ name => name :: (natives name).toList
  | .path _ parts => (natives (pathName parts)).toList
  | _ => []

/-- Whether a node is the negative zero. -/
def isNegativeZero : Node → Bool
  | .literal _ (.number value) => value.toBits == (-0 : Float).toBits
  | _ => false

/-- A scope whose texts are short and which has no negative zero. -/
@[mk_iff]
structure ScopeText.IsStorable (natives : Resolver) (text : ScopeText) : Prop where
  name : Text.IsShort text.name
  locals : ∀ name ∈ scopeVariables text.params text.body, Text.IsShort name
  texts : ∀ node ∈ text.nodes, ∀ content ∈ nodeTexts natives node, Text.IsShort content
  zeros : ∀ node ∈ text.nodes, isNegativeZero node = false

instance : DecidablePred Text.IsShort := fun text =>
  inferInstanceAs (Decidable (text.utf8ByteSize < 2 ^ 63))

instance (natives : Resolver) (text : ScopeText) : Decidable (text.IsStorable natives) :=
  decidable_of_iff' _ (ScopeText.isStorable_iff natives text)

theorem Compiled.isShort_texts (shaped : program.IsShaped Number.IsNumber)
    (compiled : Compiled natives program functions top rest unit)
    (storable : ∀ scope ∈ scopeTexts program, scope.IsStorable natives) :
    ∀ text ∈ unit.texts, Text.IsShort text := by
  intro text member
  rcases List.mem_append.1 member with inStorage | isName
  · rcases List.mem_flatMap.1 inStorage with ⟨storage, storageMember, textMember⟩
    rcases compiled.exists_scope_of_mem (Array.mem_toList_iff.1 storageMember) with
      ⟨scopeText, scopeMember, number, scope, serves, rfl⟩
    have scopeStorable := storable scopeText scopeMember
    rcases List.mem_append.1 textMember with isNamed | inConstants
    · rcases List.mem_cons.1 isNamed with rfl | inLocals
      · exact scopeStorable.name
      · exact scopeStorable.locals text ((serves.holdsVariables.mem_iff text).1 inLocals)
    · rcases List.mem_flatMap.1 inConstants with ⟨datum, datumMember, inDatum⟩
      rcases serves.exists_node (Array.mem_toList_iff.1 datumMember) with
        ⟨node, nodeMember, value, contributes, rfl⟩
      refine scopeStorable.texts node nodeMember text ?_
      cases contributes with
      | literal scalar =>
          cases value with
          | function ref => cases scalar
          | _ => exact inDatum
      | nothing => cases inDatum
      | key listed =>
          rw [List.mem_singleton.1 inDatum]
          exact List.mem_map_of_mem listed
      | native found =>
          rw [List.mem_singleton.1 inDatum]
          simp [nodeTexts, found]
      | path found =>
          rw [List.mem_singleton.1 inDatum]
          simp [nodeTexts, found]
      | function found =>
          rcases compiled.linkConstant_own shaped found with ⟨linked, _, named, same⟩
          rw [same] at inDatum
          rw [List.mem_singleton.1 inDatum, named]
          exact List.mem_cons_self
  · rcases List.mem_map.1 isName with ⟨ref, refMember, rfl⟩
    rcases (compiled.mem_functions_iff shaped).1 refMember with ⟨number, body, found, rfl⟩
    exact (storable _ (mem_scopeTexts (List.mem_of_getElem? (definition_of_body shaped found)))).name

theorem Compiled.noNegativeZero (shaped : program.IsShaped Number.IsNumber)
    (compiled : Compiled natives program functions top rest unit)
    (storable : ∀ scope ∈ scopeTexts program, scope.IsStorable natives) :
    ∀ storage ∈ unit.storages, Datum.number (-0) ∉ storage.constants := by
  intro storage storageMember member
  rcases compiled.exists_scope_of_mem storageMember with
    ⟨scopeText, scopeMember, number, scope, serves, rfl⟩
  rcases serves.exists_node member with ⟨node, nodeMember, value, contributes, same⟩
  have positive := (storable scopeText scopeMember).zeros node nodeMember
  cases contributes with
  | literal scalar =>
      cases value with
      | number value =>
          cases same
          simp [isNegativeZero] at positive
      | function ref => cases scalar
      | _ => cases same
  | nothing | key | native | path => cases same
  | function found =>
      rcases compiled.linkConstant_own shaped found with ⟨linked, _, _, linkedSame⟩
      rw [linkedSame] at same
      cases same

/-- A source with a function that has the name of a native one, and with native functions. -/
def sharedFunctionName : String :=
  "fonk length(a):\n    döndür a\nx = length(\"ş\")\nbase.length(x)\ntext(0.5)\n"

theorem load_save_sharedFunctionName :
    Image.Codec.cbor.IsFaithful ∧
    ∃ program unit, Program.ofSource sharedFunctionName = .ok program ∧
      compile Natives.standard.resolve program = .ok unit ∧
      (∀ storage ∈ unit.storages, Datum.number (-0) ∉ storage.constants) ∧
      (∀ text ∈ unit.texts, Text.IsShort text) ∧
      ∃ bytes loaded, Image.save .cbor unit = .ok bytes ∧
        Image.load .cbor Natives.standard.resolve bytes = .ok loaded ∧
        ∀ setup memory host, loaded.run setup memory host = unit.run setup memory host := by
  rcases Program.exists_ofSource sharedFunctionName (fun program =>
      WellScoped Natives.standard.resolve program ∧
        ∀ scope ∈ scopeTexts program, scope.IsStorable Natives.standard.resolve)
    (by decide +kernel) with ⟨program, read, wellScoped, storable⟩
  have shaped := Program.isShaped_ofSource read
  rcases exists_unit shaped wellScoped with ⟨unit, compiles⟩
  have spec := compile_spec Natives.standard.resolve shaped
  rw [compiles] at spec
  rcases spec with ⟨functions, top, rest, compiled⟩
  have zeros := compiled.noNegativeZero shaped storable
  have texts := compiled.isShort_texts shaped storable
  rcases compiled_load_save Image.Codec.isFaithful_cbor read compiles zeros texts with
    ⟨bytes, loaded, saves, loads, _, _, _, _, _, _, runs⟩
  exact ⟨Image.Codec.isFaithful_cbor, program, unit, read, compiles, zeros, texts, bytes, loaded,
    saves, loads, runs⟩

end Sources

end Code

end Lehce
