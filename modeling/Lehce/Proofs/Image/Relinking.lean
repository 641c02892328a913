import Lehce.Proofs.Image.Faithful
import Lehce.Proofs.Image.Loading
import Lehce.Proofs.Number.Exact
import Mathlib.Data.String.Basic

/-!
# Units are loaded as they were saved

A unit is saved as an image in which functions are kept by their names only, and linked again
when it is loaded: functions of the program through the table of the image, in which every name
stands once, and native functions through their full names, which stand for themselves. The
loaded unit has the same code and the same storages, and its table has the same functions in
the order of their names. So it is saved as the same bytes.
-/

namespace Lehce

/-- The texts of a constant. -/
def Datum.texts : Datum → List String
  | .text content => [content]
  | .atom name => [name]
  | .function ref => [ref.name]
  | _ => []

/-- The texts of a storage. -/
def Code.Storage.texts (storage : Code.Storage) : List String :=
  storage.name :: storage.locals.toList ++ storage.constants.toList.flatMap Datum.texts

/-- The texts of a unit. -/
def Code.Unit.texts (unit : Code.Unit) : List String :=
  unit.storages.toList.flatMap Code.Storage.texts ++ unit.functions.map (·.name)

/-- A constant that is found again from what an image keeps of it. -/
inductive Datum.Relinks (natives : Code.Resolver) (functions : List FunctionRef) : Datum → Prop where
  | empty : Relinks natives functions .empty
  | number (value : Float) : Relinks natives functions (.number value)
  | bool (value : Bool) : Relinks natives functions (.bool value)
  | text (content : String) : Relinks natives functions (.text content)
  | atom (name : String) : Relinks natives functions (.atom name)
  | native {name : String} (full : natives name = some name) :
      Relinks natives functions (.function { name, native := true, arity := -1 })
  | function {ref : FunctionRef} (own : ref.native = false) (listed : ref ∈ functions) :
      Relinks natives functions (.function ref)

theorem Datum.Relinks.mono {natives : Code.Resolver} {functions others : List FunctionRef}
    {datum : Datum} (relinks : datum.Relinks natives functions) (within : functions ⊆ others) :
    datum.Relinks natives others := by
  cases relinks with
  | native full => exact .native full
  | function own listed => exact .function own (within listed)
  | _ => constructor

/-- A unit whose functions are found again by their names. -/
structure Code.Unit.Relinks (natives : Code.Resolver) (unit : Code.Unit) : Prop where
  numbered : ∀ (number : Nat) (storage : Code.Storage),
    unit.storages[number]? = some storage → storage.index = number
  own : ∀ ref ∈ unit.functions, ref.native = false
  distinct : (unit.functions.map (·.name)).Nodup
  constants : ∀ storage ∈ unit.storages, ∀ datum ∈ storage.constants,
    datum.Relinks natives unit.functions

/-- A unit within the bounds of images. -/
structure Code.Unit.IsSmall (unit : Code.Unit) : Prop where
  code : unit.opcodes.size < 2 ^ 63
  fewStorages : unit.storages.size ≤ Cbor.maxCount
  fewSlots : ∀ storage ∈ unit.storages, storage.size ≤ Cbor.maxCount
  arity : ∀ storage ∈ unit.storages, Number.fitsInt64 storage.arity
  fewFunctions : unit.functions.length ≤ Cbor.maxCount
  functions : ∀ ref ∈ unit.functions, Number.fitsInt64 ref.entry ∧
    Number.fitsInt64 ref.storage ∧ Number.fitsInt64 ref.arity
  texts : ∀ text ∈ unit.texts, Text.IsShort text

/-- A unit within the bounds of images, and without negative zeros. -/
structure Code.Unit.Fits (unit : Code.Unit) : Prop extends unit.IsSmall where
  zeros : ∀ storage ∈ unit.storages, Datum.number (-0) ∉ storage.constants

namespace Image

section Functions

/-- A function as it is stored. -/
def storeFunction (ref : FunctionRef) : StoredFunction where
  name := ref.name
  entry := ref.entry
  storage := ref.storage
  arity := ref.arity

/-- A function as it is loaded. -/
def loadFunction (function : StoredFunction) : FunctionRef where
  name := function.name
  entry := function.entry
  storage := function.storage
  arity := function.arity

theorem loadFunction_storeFunction {ref : FunctionRef} (own : ref.native = false) :
    loadFunction (storeFunction ref) = ref := by
  cases ref
  cases own
  rfl

/-- The table of functions with different names has them all in their order. -/
theorem functionTable_eq {functions : List StoredFunction}
    (distinct : (functions.map (·.name)).Nodup) :
    functionTable functions = functions.map loadFunction := by
  have fold : ∀ table : List FunctionRef,
      (table.map (·.name) ++ functions.map (·.name)).Nodup →
      functions.foldl (fun table f => table.filter (·.name != f.name) ++ [loadFunction f]) table =
        table ++ functions.map loadFunction := by
    clear distinct
    induction functions with
    | nil => simp
    | cons function rest ih =>
        intro table distinct
        have fresh : table.filter (·.name != function.name) = table := by
          rw [List.filter_eq_self]
          intro ref member
          have different : ref.name ≠ function.name := by
            intro same
            rw [List.nodup_append] at distinct
            exact distinct.2.2 _ (List.mem_map_of_mem member) _ (by simp) same
          simpa using different
        rw [List.foldl_cons, fresh, ih]
        · simp
        · simpa [loadFunction] using distinct
  exact (fold [] (by simpa using distinct)).trans (by simp)

theorem find?_name_eq {table : List FunctionRef} (distinct : (table.map (·.name)).Nodup)
    {ref : FunctionRef} (listed : ref ∈ table) : table.find? (·.name == ref.name) = some ref := by
  induction table with
  | nil => cases listed
  | cons first rest ih =>
      rcases List.nodup_cons.1 distinct with ⟨fresh, restDistinct⟩
      rcases List.mem_cons.1 listed with rfl | later
      · simp
      · have different : first.name ≠ ref.name := fun same =>
          fresh (List.mem_map.2 ⟨ref, later, same.symm⟩)
        rw [List.find?_cons_of_neg (by simpa using different)]
        exact ih restDistinct later

/-- The order of functions in an image. -/
def comesBefore (first second : StoredFunction) : Bool := !(second.name < first.name)

theorem sorted_mergeSort (functions : List StoredFunction) :
    (functions.mergeSort comesBefore).Pairwise (comesBefore · ·) := by
  apply List.pairwise_mergeSort
  · intro first second third
    simp only [comesBefore, Bool.not_eq_true', decide_eq_false_iff_not, not_lt]
    exact fun before after => before.trans after
  · intro first second
    simp only [comesBefore, Bool.or_eq_true, Bool.not_eq_true', decide_eq_false_iff_not, not_lt]
    exact le_total first.name second.name

end Functions

variable {natives : Code.Resolver} {unit : Code.Unit}

section Storages

/-- A storage as it is stored. -/
def storeStorage (storage : Code.Storage) : Except ImageError StoredStorage := do
  let constants ← storage.constants.toList.mapM storeValue
  return { name := storage.name
           arity := storage.arity
           constants
           locals := storage.locals.toList }

/-- A constant is stored, and loaded from what is stored of it. -/
theorem exists_storedValue {table : List FunctionRef} (distinct : (table.map (·.name)).Nodup)
    {datum : Datum} (relinks : datum.Relinks natives table) (zero : datum ≠ .number (-0))
    (short : ∀ text ∈ datum.texts, Text.IsShort text) :
    ∃ value, storeValue datum = .ok value ∧ loadValue natives table value = .ok datum ∧
      value.Keeps := by
  have blank : Text.IsShort "" := by simp [Text.IsShort]
  have zeroKept : (0 : Float) == 0 → (0 : Float) = 0 := fun _ => rfl
  cases relinks with
  | empty => exact ⟨_, rfl, rfl, by simp, zeroKept, blank⟩
  | bool => exact ⟨_, rfl, rfl, by simp, zeroKept, blank⟩
  | text | atom => exact ⟨_, rfl, rfl, by simp, zeroKept, short _ (by simp [Datum.texts])⟩
  | number value =>
      refine ⟨_, rfl, rfl, by simp, fun equal => ?_, blank⟩
      exact Number.eq_zero_of_beq equal fun same => zero (congrArg Datum.number same)
  | native full =>
      refine ⟨_, rfl, ?_, by simp, zeroKept, short _ (by simp [Datum.texts])⟩
      simp [loadValue, Code.resolveNative, full]
  | @function ref own listed =>
      refine ⟨_, rfl, ?_, by simp, zeroKept, short _ (by simp [Datum.texts])⟩
      simp [loadValue, own, find?_name_eq distinct listed]

theorem exists_mapM {ε α β : Type} {f : α → Except ε β} {good : α → β → Prop} {xs : List α}
    (each : ∀ x ∈ xs, ∃ y, f x = .ok y ∧ good x y) :
    ∃ ys, xs.mapM f = .ok ys ∧ List.Forall₂ good xs ys := by
  induction xs with
  | nil => exact ⟨[], rfl, .nil⟩
  | cons x xs ih =>
      rcases List.forall_mem_cons.1 each with ⟨⟨y, first, firstGood⟩, others⟩
      rcases ih others with ⟨ys, rest, restGood⟩
      exact ⟨y :: ys, mapM_eq_ok_iff.2 (.cons first (mapM_eq_ok_iff.1 rest)),
        .cons firstGood restGood⟩

/-- A storage is stored, and loaded from what is stored of it. -/
theorem exists_storedStorage {table : List FunctionRef} (distinct : (table.map (·.name)).Nodup)
    {storage : Code.Storage}
    (relinks : ∀ datum ∈ storage.constants, datum.Relinks natives table)
    (zeros : Datum.number (-0) ∉ storage.constants) (few : storage.size ≤ Cbor.maxCount)
    (arity : Number.fitsInt64 storage.arity) (short : ∀ text ∈ storage.texts, Text.IsShort text) :
    ∃ stored, storeStorage storage = .ok stored ∧
      (∀ number : Nat, storage.index = number →
        loadStorage natives table (stored, number) = .ok storage) ∧ stored.Keeps := by
  have constants : ∀ datum ∈ storage.constants.toList, ∃ value, storeValue datum = .ok value ∧
      loadValue natives table value = .ok datum ∧ value.Keeps := by
    intro datum member
    refine exists_storedValue distinct (relinks datum (Array.mem_toList_iff.1 member)) ?_ ?_
    · rintro rfl
      exact zeros (Array.mem_toList_iff.1 member)
    · intro text textMember
      refine short text ?_
      rw [Code.Storage.texts]
      exact List.mem_append_right _ (List.mem_flatMap.2 ⟨datum, member, textMember⟩)
  rcases exists_mapM constants with ⟨values, stores, good⟩
  have count := good.length_eq
  have slots : storage.constants.size + storage.locals.size ≤ Cbor.maxCount := few
  refine ⟨{ name := storage.name, arity := storage.arity, constants := values,
            locals := storage.locals.toList }, ?_, ?_, ?_⟩
  · simp only [storeStorage, stores]
    rfl
  · intro number numbered
    rw [loadStorage_eq_ok_iff]
    refine ⟨storage.constants.toList, ?_, ?_⟩
    · rw [mapM_eq_ok_iff]
      exact (good.imp fun _ _ kept => kept.1).flip
    · cases storage
      cases numbered
      rfl
  · refine ⟨short _ (by simp [Code.Storage.texts]), arity, ?_, ?_, ?_, ?_⟩
    · simp only [Array.length_toList] at count
      show values.length ≤ _
      omega
    · intro value member
      rcases List.mem_iff_getElem.1 member with ⟨place, inside, rfl⟩
      exact ((List.forall₂_iff_get.1 good).2 place (count ▸ inside) inside).2
    · show storage.locals.toList.length ≤ _
      rw [Array.length_toList]
      omega
    · intro name member
      exact short name (by
        rw [Code.Storage.texts]
        exact List.mem_append_left _ (List.mem_cons_of_mem _ member))

end Storages

section Units

/-- The functions of a unit in the order in which an image keeps them. -/
def storedFunctions (unit : Code.Unit) : List StoredFunction :=
  (unit.functions.map storeFunction).mergeSort comesBefore

/-- A unit as it is loaded after it was saved. -/
def reloaded (unit : Code.Unit) : Code.Unit where
  opcodes := unit.opcodes
  storages := unit.storages
  functions := (storedFunctions unit).map loadFunction

theorem ofUnit_eq (unit : Code.Unit) : ofUnit unit = do
    let storages ← unit.storages.toList.mapM storeStorage
    return {
      version := currentVersion
      opcodes := unit.opcodes.toList
      storages
      functions := storedFunctions unit } := rfl

/-- The loaded table has the same functions. -/
theorem perm_functions_reloaded (own : ∀ ref ∈ unit.functions, ref.native = false) :
    (reloaded unit).functions.Perm unit.functions := by
  have same : (unit.functions.map storeFunction).map loadFunction = unit.functions := by
    rw [List.map_map]
    exact (List.map_congr_left fun ref member =>
      loadFunction_storeFunction (own ref member)).trans (List.map_id' _)
  have perm := (List.mergeSort_perm (unit.functions.map storeFunction) comesBefore).map loadFunction
  rwa [same] at perm

/-- The functions of a loaded unit are in order, so that they are kept as they are. -/
theorem storedFunctions_reloaded (unit : Code.Unit) :
    storedFunctions (reloaded unit) = storedFunctions unit := by
  have same : (reloaded unit).functions.map storeFunction = storedFunctions unit := by
    rw [reloaded, List.map_map]
    exact List.map_id'' (fun _ => rfl) _
  rw [storedFunctions, same]
  exact List.mergeSort_of_pairwise (sorted_mergeSort _)

/-- A unit is saved as an image that is loaded as the unit. -/
theorem exists_image (relinks : unit.Relinks natives) (fits : unit.Fits) :
    ∃ image, ofUnit unit = .ok image ∧ image.Keeps ∧
      image.toUnit natives = .ok (reloaded unit) := by
  have perm := perm_functions_reloaded relinks.own
  have distinct : ((reloaded unit).functions.map (·.name)).Nodup :=
    ((perm.map (·.name)).nodup_iff).2 relinks.distinct
  have storages : ∀ storage ∈ unit.storages.toList, ∃ stored, storeStorage storage = .ok stored ∧
      (∀ number : Nat, storage.index = number →
        loadStorage natives (reloaded unit).functions (stored, number) = .ok storage) ∧
      stored.Keeps := by
    intro storage member
    have listed := Array.mem_toList_iff.1 member
    refine exists_storedStorage distinct ?_ (fits.zeros storage listed)
      (fits.fewSlots storage listed) (fits.arity storage listed) ?_
    · intro datum datumMember
      exact (relinks.constants storage listed datum datumMember).mono fun ref => perm.mem_iff.2
    · intro text textMember
      refine fits.texts text ?_
      rw [Code.Unit.texts]
      exact List.mem_append_left _ (List.mem_flatMap.2 ⟨storage, member, textMember⟩)
  rcases exists_mapM storages with ⟨stored, stores, good⟩
  have count := good.length_eq
  have functionsPerm := List.mergeSort_perm (unit.functions.map storeFunction) comesBefore
  have table : functionTable (storedFunctions unit) = (reloaded unit).functions := by
    apply functionTable_eq
    simpa [reloaded, loadFunction, Function.comp_def] using distinct
  refine ⟨{ version := currentVersion, opcodes := unit.opcodes.toList, storages := stored,
            functions := storedFunctions unit }, ?_, ?_, ?_⟩
  · rw [ofUnit_eq, stores]
    rfl
  · refine ⟨by rfl, ?_, ?_, ?_, ?_, ?_⟩
    · simpa using fits.code
    · simpa [← count] using fits.fewStorages
    · intro storage member
      rcases List.mem_iff_getElem.1 member with ⟨place, inside, rfl⟩
      exact ((List.forall₂_iff_get.1 good).2 place (count ▸ inside) inside).2
    · simpa [storedFunctions] using fits.fewFunctions
    · intro function member
      rcases List.mem_map.1 (functionsPerm.mem_iff.1 member) with ⟨ref, listed, rfl⟩
      rcases fits.functions ref listed with ⟨entry, storage, arity⟩
      exact ⟨fits.texts _ (List.mem_append_right _ (List.mem_map_of_mem listed)), entry, storage,
        arity⟩
  · rw [toUnit_eq_ok_iff]
    refine ⟨rfl, unit.storages.toList, ?_, ?_⟩
    · rw [table, mapM_eq_ok_iff, List.forall₂_iff_get]
      refine ⟨by simp [← count], fun place inside within => ?_⟩
      have loads := ((List.forall₂_iff_get.1 good).2 place within (count ▸ within)).1 place
        (relinks.numbered place _ (by simp))
      simpa using loads
    · simp [reloaded, table]

/-- Loading what was saved gives a unit that differs in the order of its functions only. -/
theorem load_save {codec : Codec} (faithful : codec.IsFaithful) (relinks : unit.Relinks natives)
    (fits : unit.Fits) :
    ∃ bytes, save codec unit = .ok bytes ∧ load codec natives bytes = .ok (reloaded unit) ∧
      save codec (reloaded unit) = .ok bytes := by
  rcases exists_image relinks fits with ⟨image, stores, keeps, loads⟩
  have again : ofUnit (reloaded unit) = ofUnit unit := by
    rw [ofUnit_eq, ofUnit_eq, storedFunctions_reloaded]
    rfl
  rcases faithful.reads image keeps with ⟨bytes, written, read⟩
  have saves : save codec unit = .ok bytes := by
    rw [save, stores]
    exact congrArg (·.mapError ImageError.unencodable) written
  refine ⟨bytes, saves, load_eq_ok_iff.2 ⟨image, read, loads⟩, ?_⟩
  rw [← saves, save, save, again]

end Units

end Image

section Running

/-- What a unit does depends on its code and its storages only. -/
theorem Machine.step_congr {unit other : Code.Unit} (code : other.opcodes = unit.opcodes)
    (storages : other.storages = unit.storages) (registry : Option Registry) (m : Machine) :
    step other registry m = step unit registry m := by
  cases unit
  cases other
  cases code
  cases storages
  rfl

theorem Run.advance_congr {unit other : Code.Unit} (code : other.opcodes = unit.opcodes)
    (storages : other.storages = unit.storages) (registry : Option Registry) (policy : Policy)
    (steps : Nat) (run : Run) :
    advance other registry policy steps run = advance unit registry policy steps run := by
  induction steps generalizing run with
  | zero => rw [advance, advance, code]
  | succ steps ih =>
      rw [advance, advance, code, Machine.step_congr code storages]
      simp only [ih]

theorem Code.Unit.run_congr {unit other : Code.Unit} (code : other.opcodes = unit.opcodes)
    (storages : other.storages = unit.storages) (setup : Setup) (memory : Array Value)
    (host : Host) : other.run setup memory host = unit.run setup memory host :=
  Run.advance_congr code storages _ _ _ _

end Running

end Lehce
