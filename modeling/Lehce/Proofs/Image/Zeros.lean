import Lehce.Proofs.Code.Literals
import Lehce.Proofs.Image.Persistence

/-!
# Zeros lose their sign in an image

An image leaves a number out of a constant when the number equals zero, and both zeros do. So a
unit is saved as if its zeros had no sign, and that is how it is loaded. All other numbers are
loaded as they were saved, and the code of a scope loads them as they are written.
-/

namespace Lehce

/-- A datum in which zero has no sign. -/
def Datum.unsigned : Datum → Datum
  | .number value => .number (Number.unsigned value)
  | datum => datum

/-- A storage in which zeros have no sign. -/
def Code.Storage.unsigned (storage : Code.Storage) : Code.Storage :=
  { storage with constants := storage.constants.map Datum.unsigned }

/-- A unit in which zeros have no sign. -/
def Code.Unit.unsigned (unit : Code.Unit) : Code.Unit :=
  { unit with storages := unit.storages.map Code.Storage.unsigned }

namespace Image

section Saving

variable {unit : Code.Unit}

theorem storeValue_unsigned (datum : Datum) :
    storeValue datum.unsigned = (storeValue datum).map StoredValue.unsigned := by
  have zero : ∀ value : StoredValue, value.number = 0 → value.unsigned = value := by
    rintro ⟨kind, number, text, bool, native⟩ rfl
    simp [StoredValue.unsigned, Number.unsigned]
  cases datum with
  | number => rfl
  | empty | bool | text | atom | function =>
      exact congrArg Except.ok (zero _ rfl).symm
  | absent | list | dict => rfl

/-- What is stored of changed values is the changed form of what is stored of them. -/
theorem mapM_map_change {ε α β : Type} {store : α → Except ε β} {change : α → α}
    {changed : β → β} (each : ∀ x, store (change x) = (store x).map changed) (xs : List α) :
    (xs.map change).mapM store = (xs.mapM store).map (List.map changed) := by
  induction xs with
  | nil => rfl
  | cons x rest ih =>
      rw [List.map_cons, List.mapM_cons, List.mapM_cons, each, ih]
      cases store x with
      | error => rfl
      | ok y => cases rest.mapM store <;> rfl

theorem storeStorage_unsigned (storage : Code.Storage) :
    storeStorage storage.unsigned = (storeStorage storage).map StoredStorage.unsigned := by
  have constants := mapM_map_change storeValue_unsigned storage.constants.toList
  simp only [storeStorage, Code.Storage.unsigned, Array.toList_map, constants]
  cases storage.constants.toList.mapM storeValue <;> rfl

/-- A unit is saved as if its zeros had no sign. -/
theorem save_unsigned {codec : Codec} (faithful : codec.IsFaithful) (unit : Code.Unit) :
    save codec unit.unsigned = save codec unit := by
  have storages := mapM_map_change storeStorage_unsigned unit.storages.toList
  have image : ofUnit unit.unsigned = (ofUnit unit).map Image.unsigned := by
    rw [ofUnit_eq, ofUnit_eq]
    simp only [Code.Unit.unsigned, Array.toList_map, storages]
    cases unit.storages.toList.mapM storeStorage <;> rfl
  rw [save, save, image]
  cases ofUnit unit with
  | error => rfl
  | ok image => exact congrArg (·.mapError ImageError.unencodable) (faithful.omits image)

end Saving

section Loading

variable {natives : Code.Resolver} {unit : Code.Unit}

theorem unsigned_relinks {functions : List FunctionRef} {datum : Datum}
    (relinks : datum.Relinks natives functions) : datum.unsigned.Relinks natives functions := by
  cases relinks with
  | number => exact .number _
  | native full => exact .native full
  | function own listed => exact .function own listed
  | _ => constructor

theorem mem_storages_unsigned {storage : Code.Storage} :
    storage ∈ unit.unsigned.storages ↔ ∃ other ∈ unit.storages, other.unsigned = storage := by
  simp [Code.Unit.unsigned]

theorem texts_unsigned (unit : Code.Unit) : unit.unsigned.texts = unit.texts := by
  have datum : ∀ datum : Datum, datum.unsigned.texts = datum.texts := by
    intro datum
    cases datum <;> rfl
  have storage : ∀ storage : Code.Storage, storage.unsigned.texts = storage.texts := by
    intro storage
    simp [Code.Storage.texts, Code.Storage.unsigned, List.flatMap_map, datum]
  simp [Code.Unit.texts, Code.Unit.unsigned, List.flatMap_map, storage]

theorem relinks_unsigned (relinks : unit.Relinks natives) : unit.unsigned.Relinks natives where
  numbered number storage found := by
    simp only [Code.Unit.unsigned, Array.getElem?_map, Option.map_eq_some_iff] at found
    rcases found with ⟨other, otherFound, rfl⟩
    exact relinks.numbered number other otherFound
  own := relinks.own
  distinct := relinks.distinct
  constants storage member datum datumMember := by
    rcases mem_storages_unsigned.1 member with ⟨other, otherMember, rfl⟩
    rcases Array.mem_map.1 datumMember with ⟨earlier, earlierMember, rfl⟩
    exact unsigned_relinks (relinks.constants other otherMember earlier earlierMember)

theorem fits_unsigned (small : unit.IsSmall) : unit.unsigned.Fits where
  code := small.code
  fewStorages := by simpa [Code.Unit.unsigned] using small.fewStorages
  fewSlots storage member := by
    rcases mem_storages_unsigned.1 member with ⟨other, otherMember, rfl⟩
    simpa [Code.Storage.size, Code.Storage.unsigned] using small.fewSlots other otherMember
  arity storage member := by
    rcases mem_storages_unsigned.1 member with ⟨other, otherMember, rfl⟩
    exact small.arity other otherMember
  fewFunctions := small.fewFunctions
  functions := small.functions
  texts := by
    rw [texts_unsigned]
    exact small.texts
  zeros storage member := by
    rcases mem_storages_unsigned.1 member with ⟨other, _, rfl⟩
    intro datumMember
    rcases Array.mem_map.1 datumMember with ⟨datum, _, same⟩
    cases datum with
    | number value => exact Number.unsigned_ne_negative_zero value (Datum.number.inj same)
    | _ => cases same

/-- What is loaded after a unit was saved is the unit in which zeros have no sign. -/
theorem load_save_unsigned {codec : Codec} (faithful : codec.IsFaithful)
    (relinks : unit.Relinks natives) (small : unit.IsSmall) :
    ∃ bytes, save codec unit = .ok bytes ∧
      load codec natives bytes = .ok (reloaded unit.unsigned) := by
  rcases load_save faithful (relinks_unsigned relinks) (fits_unsigned small) with
    ⟨bytes, saves, loads, _⟩
  rw [save_unsigned faithful] at saves
  exact ⟨bytes, saves, loads⟩

end Loading

end Image

namespace Code

section Owners

variable {unit other : Unit} {listing : List (Nat × Instruction)} {owner : Option FunctionRef}

theorem Unit.belongs_congr (functions : other.functions.Perm unit.functions)
    (listing : List (Nat × Instruction)) (owner : Option FunctionRef) (offset : Nat) :
    other.Belongs listing owner offset ↔ unit.Belongs listing owner offset := by
  cases owner with
  | none => simp only [Unit.Belongs, functions.mem_iff]
  | some owner => simp only [Unit.Belongs, functions.mem_iff]

theorem storageOf?_unsigned (unit : Unit) (owner : Option FunctionRef) :
    unit.unsigned.storageOf? owner = (unit.storageOf? owner).map Storage.unsigned := by
  cases owner <;> simp [Unit.storageOf?, Unit.unsigned]

theorem number?_unsigned (constants : Array Datum) (instruction : Instruction) :
    instruction.number? (constants.map Datum.unsigned) =
      (instruction.number? constants).map Number.unsigned := by
  have datum : ∀ datum : Datum, datum.unsigned.number? = datum.number?.map Number.unsigned := by
    intro datum
    cases datum <;> rfl
  cases instruction with
  | load slot =>
      simp only [Instruction.number?, Array.getElem?_map]
      cases constants[slot.toNat]? with
      | none => rfl
      | some content => exact datum content
  | _ => rfl

/-- The numbers that are loaded after a unit was saved are those of the unit, without signs of
zeros. -/
theorem loadedNumbers_unsigned (functions : other.functions.Perm unit.functions)
    (storages : other.storages = unit.unsigned.storages) :
    other.loadedNumbers listing owner =
      (unit.loadedNumbers listing owner).map Number.unsigned := by
  have storage : other.storageOf? owner = (unit.storageOf? owner).map Storage.unsigned := by
    rw [← storageOf?_unsigned]
    cases owner <;> simp only [Unit.storageOf?, storages]
  rw [Unit.loadedNumbers, Unit.loadedNumbers, List.map_filterMap]
  apply List.filterMap_congr
  rintro ⟨offset, instruction⟩ _
  have belongs := Unit.belongs_congr functions listing owner offset
  by_cases own : unit.Belongs listing owner offset
  · simp only [own, belongs.2 own, if_true, storage]
    cases unit.storageOf? owner with
    | none => rfl
    | some storage => exact number?_unsigned storage.constants instruction
  · have notOwn : ¬other.Belongs listing owner offset := fun known => own (belongs.1 known)
    simp only [own, notOwn, if_false, Option.map_none]

end Owners

section Sources

variable {program : Program} {unit : Unit}

/--
The code of a compiled program loads the numbers of each scope where they stand, each as it is
written, except that a zero is the first one of its scope. What is loaded after the unit was
saved by a faithful codec has the same code and loads the same numbers, except that zeros have
no sign.
-/
theorem compiled_loadedNumbers {codec : Image.Codec} (faithful : codec.IsFaithful)
    {source : String} (read : Program.ofSource source = .ok program)
    {registry : Registry} (compiles : compile registry.resolve program = .ok unit) :
    ∃ listing, decodeAll unit.opcodes = .ok listing ∧
      unit.loadedNumbers listing none = (topText program).meanings ∧
      List.Forall₂ (fun ref definition => ref.name = definition.name ∧
        unit.loadedNumbers listing (some ref) = definition.text.meanings)
        unit.functions (definitions program) ∧
      ((∀ text ∈ unit.texts, Text.IsShort text) →
        ∃ bytes loaded, Image.save codec unit = .ok bytes ∧
          Image.load codec registry.resolve bytes = .ok loaded ∧
          loaded.opcodes = unit.opcodes ∧ loaded.functions.Perm unit.functions ∧
          (∀ owner, loaded.loadedNumbers listing owner =
            (unit.loadedNumbers listing owner).map Number.unsigned) ∧
          ∀ setup memory host,
            loaded.run setup memory host = unit.unsigned.run setup memory host) := by
  have shaped := Program.isShaped_ofSource read
  have spec := compile_spec registry.resolve shaped
  rw [compiles] at spec
  rcases spec with ⟨functions, top, rest, compiled⟩
  rcases pieces_program shaped functions registry.resolve top rest with ⟨code, pieces⟩
  refine ⟨located 0 code, decodeAll_eq (compiled.bytes_code pieces),
    compiled.loadedNumbers_top shaped pieces, ?_, ?_⟩
  · rw [compiled.functions_eq_mapIdx shaped, ← programBodies_definitions shaped,
      List.forall₂_iff_get]
    refine ⟨by simp, fun number inside _ => ?_⟩
    rw [List.length_mapIdx] at inside
    have found : (programBodies program)[number]? = some (programBodies program)[number] :=
      List.getElem?_eq_getElem inside
    simp only [List.get_eq_getElem, List.getElem_mapIdx, List.getElem_map]
    exact ⟨rfl, compiled.loadedNumbers_inner shaped pieces found⟩
  · intro texts
    have relinks := compiled.relinks shaped fun _ _ => Registry.resolve_full
    rcases Image.load_save_unsigned faithful relinks (compiled.isSmall shaped texts) with
      ⟨bytes, saves, loads⟩
    have perm : (Image.reloaded unit.unsigned).functions.Perm unit.functions :=
      Image.perm_functions_reloaded relinks.own
    exact ⟨bytes, Image.reloaded unit.unsigned, saves, loads, rfl, perm,
      fun owner => loadedNumbers_unsigned perm rfl, Unit.run_congr rfl rfl⟩

/-- A source with numbers in two scopes, one of them with a sign. -/
def halved : String := "fonk half(a):\n    döndür a * 0.5\nx = -2\nhalf(x - 2)\n"

theorem loadedNumbers_halved :
    Image.Codec.cbor.IsFaithful ∧
    ∃ program unit, Program.ofSource halved = .ok program ∧
      compile Natives.standard.resolve program = .ok unit ∧
      (topText program).meanings.map (·.toBits) = [(-2 : Float).toBits, (2 : Float).toBits] ∧
      ∃ listing, decodeAll unit.opcodes = .ok listing ∧
        unit.loadedNumbers listing none = (topText program).meanings ∧
        List.Forall₂ (fun ref definition => ref.name = definition.name ∧
          unit.loadedNumbers listing (some ref) = definition.text.meanings)
          unit.functions (definitions program) ∧
        ∃ bytes loaded, Image.save .cbor unit = .ok bytes ∧
          Image.load .cbor Natives.standard.resolve bytes = .ok loaded ∧
          ∀ owner, loaded.loadedNumbers listing owner =
            (unit.loadedNumbers listing owner).map Number.unsigned := by
  rcases Program.exists_ofSource halved (fun program =>
      WellScoped Natives.standard.resolve program ∧
        (∀ scope ∈ scopeTexts program, scope.IsStorable Natives.standard.resolve) ∧
        (topText program).meanings.map (·.toBits) = [(-2 : Float).toBits, (2 : Float).toBits])
    (by decide +kernel) with ⟨program, read, wellScoped, storable, meant⟩
  have shaped := Program.isShaped_ofSource read
  rcases exists_unit shaped wellScoped with ⟨unit, compiles⟩
  have spec := compile_spec Natives.standard.resolve shaped
  rw [compiles] at spec
  rcases spec with ⟨functions, top, rest, compiled⟩
  rcases compiled_loadedNumbers Image.Codec.isFaithful_cbor read compiles with
    ⟨listing, decoded, outer, inner, images⟩
  rcases images (compiled.isShort_texts shaped storable) with
    ⟨bytes, loaded, saves, loads, _, _, numbers, _⟩
  exact ⟨Image.Codec.isFaithful_cbor, program, unit, read, compiles, meant, listing, decoded,
    outer, inner, bytes, loaded, saves, loads, numbers⟩

/-- A source with both zeros in one scope. -/
def bothZeros : String := "x = 0\ny = -0\n"

/-- The negative zero behind a zero is loaded as the zero. -/
theorem loadedNumbers_bothZeros :
    ∃ program unit listing, Program.ofSource bothZeros = .ok program ∧
      compile Natives.standard.resolve program = .ok unit ∧
      decodeAll unit.opcodes = .ok listing ∧
      (Node.numbers (topText program).nodes).map (·.toBits) =
        [(0 : Float).toBits, (-0 : Float).toBits] ∧
      (unit.loadedNumbers listing none).map (·.toBits) =
        [(0 : Float).toBits, (0 : Float).toBits] ∧
      (0 : Float).toBits ≠ (-0 : Float).toBits := by
  rcases Program.exists_ofSource bothZeros (fun program =>
      WellScoped Natives.standard.resolve program ∧
        (Node.numbers (topText program).nodes).map (·.toBits) =
          [(0 : Float).toBits, (-0 : Float).toBits] ∧
        (topText program).meanings.map (·.toBits) = [(0 : Float).toBits, (0 : Float).toBits])
    (by decide +kernel) with ⟨program, read, wellScoped, written, meant⟩
  have shaped := Program.isShaped_ofSource read
  rcases exists_unit shaped wellScoped with ⟨unit, compiles⟩
  have spec := compile_spec Natives.standard.resolve shaped
  rw [compiles] at spec
  rcases spec with ⟨functions, top, rest, compiled⟩
  rcases pieces_program shaped functions Natives.standard.resolve top rest with ⟨code, pieces⟩
  refine ⟨program, unit, located 0 code, read, compiles,
    decodeAll_eq (compiled.bytes_code pieces), written, ?_, by decide +kernel⟩
  rw [compiled.loadedNumbers_top shaped pieces]
  exact meant

end Sources

end Code

end Lehce
