import Lehce.Image.Basic
import Lehce.Proofs.Machine.Provenance
import Lehce.Proofs.Program.Reading

/-!
# Loaded units

What a unit that was loaded from an image holds. Its storages are those of the image, one
by one. A constant that is a function of the program is one of the unit's function table,
so the functions of a run of it are those of the table.
-/

namespace Lehce

theorem mapM_eq_ok_iff {ε α β : Type} {f : α → Except ε β} {xs : List α} {ys : List β} :
    xs.mapM f = .ok ys ↔ List.Forall₂ (fun x y => f x = .ok y) xs ys := by
  induction xs generalizing ys with
  | nil => cases ys <;> simp [pure, Except.pure]
  | cons x xs ih =>
      simp only [List.mapM_cons, bind_eq_ok, pure, Except.pure, Except.ok.injEq,
        List.forall₂_cons_left_iff]
      constructor
      · rintro ⟨y, first, rest, others, rfl⟩
        exact ⟨y, rest, first, ih.1 others, rfl⟩
      · rintro ⟨y, rest, first, others, rfl⟩
        exact ⟨y, first, rest, ih.2 others, rfl⟩

namespace Image

variable {natives : Code.Resolver} {image : Image} {unit : Code.Unit}

/-- A storage as it is loaded, with its number. -/
def loadStorage (natives : Code.Resolver) (table : List FunctionRef) (stored : StoredStorage × Nat) :
    Except ImageError Code.Storage := do
  let constants ← stored.1.constants.mapM (loadValue natives table)
  return { index := stored.2
           name := stored.1.name
           arity := stored.1.arity
           constants := constants.toArray
           locals := stored.1.locals.toArray }

/-- An image is loaded when its version is the current one and all constants can be linked. -/
theorem toUnit_eq_ok_iff : image.toUnit natives = .ok unit ↔
    image.version = currentVersion ∧ ∃ storages,
      image.storages.zipIdx.mapM (loadStorage natives (functionTable image.functions)) =
        .ok storages ∧
      unit = {
        opcodes := image.opcodes.toArray
        storages := storages.toArray
        functions := functionTable image.functions } := by
  have linked : image.toUnit natives =
      if image.version ≠ currentVersion then throw (.version image.version)
      else do
        let storages ←
          image.storages.zipIdx.mapM (loadStorage natives (functionTable image.functions))
        return {
          opcodes := image.opcodes.toArray
          storages := storages.toArray
          functions := functionTable image.functions } := by
    unfold toUnit
    split <;> rfl
  rw [linked]
  by_cases current : image.version = currentVersion
  · rw [if_neg (not_not.2 current)]
    simp only [bind_eq_ok, pure, Except.pure, Except.ok.injEq, current, true_and]
    exact exists_congr fun storages => and_congr_right fun _ => eq_comm
  · rw [if_pos current]
    simp [current]

theorem loadStorage_eq_ok_iff {table : List FunctionRef} {stored : StoredStorage × Nat}
    {storage : Code.Storage} : loadStorage natives table stored = .ok storage ↔
      ∃ constants, stored.1.constants.mapM (loadValue natives table) = .ok constants ∧
        storage = {
          index := stored.2
          name := stored.1.name
          arity := stored.1.arity
          constants := constants.toArray
          locals := stored.1.locals.toArray } := by
  simp only [loadStorage, bind_eq_ok, pure, Except.pure, Except.ok.injEq]
  exact exists_congr fun constants => and_congr_right fun _ => eq_comm

/-- A constant that is a function of the program is one of the table. -/
theorem loadValue_sound {table : List FunctionRef} {value : StoredValue} {datum : Datum}
    (loads : loadValue natives table value = .ok datum) :
    (Value.ofScalar datum).Sound (· ∈ table) := by
  unfold loadValue at loads
  split at loads
  any_goals
    cases loads
    trivial
  · split at loads
    · split at loads
      · rename_i key ref found
        cases loads
        intro compiled
        rcases Option.map_eq_some_iff.1 found with ⟨full, _, same⟩
        cases same
        cases compiled
      · cases loads
    · split at loads
      · rename_i ref found
        cases loads
        exact fun _ => List.mem_of_find?_eq_some found
      · cases loads
  · cases loads

/-- Every constant of a loaded unit is loaded from one of the image. -/
theorem exists_loadValue (loads : image.toUnit natives = .ok unit) {storage : Code.Storage}
    (member : storage ∈ unit.storages) {datum : Datum} (constant : datum ∈ storage.constants) :
    ∃ value, loadValue natives (functionTable image.functions) value = .ok datum := by
  rcases toUnit_eq_ok_iff.1 loads with ⟨_, storages, storagesLoaded, rfl⟩
  rcases List.forall₂_iff_get.1 (mapM_eq_ok_iff.1 storagesLoaded) with ⟨length, each⟩
  rcases List.mem_iff_getElem.1 (List.mem_toArray.1 member) with ⟨place, inside, rfl⟩
  rcases loadStorage_eq_ok_iff.1 (each place (by omega) inside) with
    ⟨constants, constantsLoaded, storageEq⟩
  simp only [List.get_eq_getElem] at storageEq
  rw [storageEq] at constant
  rcases List.forall₂_iff_get.1 (mapM_eq_ok_iff.1 constantsLoaded) with ⟨same, all⟩
  rcases List.mem_iff_getElem.1 (List.mem_toArray.1 constant) with ⟨number, within, rfl⟩
  exact ⟨_, all number (by omega) within⟩

theorem toUnit_sound (loads : image.toUnit natives = .ok unit) :
    unit.Sound (· ∈ unit.functions) := by
  intro storage member datum constant
  rcases exists_loadValue loads member constant with ⟨value, loaded⟩
  rcases toUnit_eq_ok_iff.1 loads with ⟨_, _, _, rfl⟩
  exact loadValue_sound loaded

theorem load_eq_ok_iff {codec : Codec} {bytes : List UInt8} :
    load codec natives bytes = .ok unit ↔
      ∃ image, codec.decode bytes = .ok image ∧ image.toUnit natives = .ok unit := by
  unfold load
  cases codec.decode bytes <;> simp

end Image

end Lehce
