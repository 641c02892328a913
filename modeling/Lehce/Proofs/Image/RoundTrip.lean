import Lehce.Image.Layout
import Lehce.Proofs.Image.Canonical
import Lehce.Proofs.Image.Faithful
import Lehce.Proofs.Text.Utf8

/-!
# Images are read back

Each part of an image is read back from the item that it is written as: a field that is left
out because it is zero is read as zero, and a list that is written as nothing is read as empty.
With the canonical bytes of items this gives the image back from its bytes. The zero of a
constant must be the positive one, since both zeros are left out. So the codec of items is a
faithful one.
-/

namespace Lehce

namespace Image

open Cbor (Item)

/-- The fields that are not left out. -/
def presentFields (entries : List (Nat × Option Item)) : List (Nat × Item) :=
  entries.filterMap fun entry => entry.2.map fun item => (entry.1, item)

theorem fields_eq (entries : List (Nat × Option Item)) :
    fields entries =
      .map ((presentFields entries).map fun entry => (.unsigned entry.1, entry.2)) := by
  simp only [fields, presentFields, List.map_filterMap, Option.map_map]
  rfl

section Bounds

variable {depth : Nat}

theorem fits_ofString {text : String} (short : Text.IsShort text) :
    (Item.ofString text).Fits depth := by
  apply Item.Fits.text
  rw [Text.length_toList_toUTF8]
  exact short

theorem fits_ofInt {n : Int} (fits : Number.fitsInt64 n) : (Item.ofInt n).Fits depth := by
  rw [Number.fitsInt64_iff] at fits
  unfold Item.ofInt
  split
  · exact .negative (by omega)
  · exact .unsigned (by omega)

theorem fits_null : Item.null.Fits depth := .simple (by decide)

theorem fits_fields {entries : List (Nat × Option Item)} (few : entries.length ≤ Cbor.maxCount)
    (each : ∀ entry ∈ entries, entry.1 < 2 ^ 64 ∧ ∀ item ∈ entry.2, item.Fits depth) :
    (fields entries).Fits (depth + 1) := by
  have count : (presentFields entries).length ≤ entries.length := List.length_filterMap_le _ _
  have present : ∀ field ∈ presentFields entries, field.1 < 2 ^ 64 ∧ field.2.Fits depth := by
    intro field member
    rcases List.mem_filterMap.1 member with ⟨entry, entryMember, found⟩
    rcases Option.map_eq_some_iff.1 found with ⟨item, itemEq, rfl⟩
    exact ⟨(each entry entryMember).1, (each entry entryMember).2 item itemEq⟩
  rw [fields_eq]
  refine .map (by simpa using count.trans few) ?_ ?_
  · exact List.forall_mem_map.2 fun field member => .unsigned (present field member).1
  · exact List.forall_mem_map.2 fun field member => (present field member).2

theorem fits_listItem {items : List Item} (few : items.length ≤ Cbor.maxCount)
    (each : ∀ item ∈ items, item.Fits depth) : (listItem items).Fits (depth + 1) := by
  unfold listItem
  split
  · exact fits_null
  · exact .array few each

theorem fits_valueItem {value : StoredValue} (keeps : value.Keeps) :
    (valueItem value).Fits (depth + 1) := by
  have kind := keeps.kind
  apply fits_fields (by simp [Cbor.maxCount])
  simp only [List.forall_mem_cons, List.not_mem_nil, false_imp_iff, implies_true, and_true,
    Option.mem_def, Option.some.injEq, forall_eq']
  refine ⟨⟨by decide, .unsigned (by omega)⟩, ⟨by decide, ?_⟩, ⟨by decide, ?_⟩, ⟨by decide, ?_⟩,
    ⟨by decide, ?_⟩⟩
  · split
    · simp
    · simpa using .float _
  · split
    · simp
    · simpa using fits_ofString keeps.text
  · split
    · simpa using .simple (by decide)
    · simp
  · split
    · simpa using .simple (by decide)
    · simp

theorem fits_storageItem {storage : StoredStorage} (keeps : storage.Keeps) :
    (storageItem storage).Fits (depth + 3) := by
  apply fits_fields (by simp [Cbor.maxCount])
  simp only [List.forall_mem_cons, List.not_mem_nil, false_imp_iff, implies_true, and_true,
    Option.mem_def, Option.some.injEq, forall_eq']
  refine ⟨⟨by decide, fits_ofString keeps.name⟩, ⟨by decide, fits_ofInt keeps.arity⟩,
    ⟨by decide, fits_listItem (by simpa using keeps.fewConstants) ?_⟩,
    ⟨by decide, fits_listItem (by simpa using keeps.fewLocals) ?_⟩⟩
  · exact List.forall_mem_map.2 fun value member => fits_valueItem (keeps.constants value member)
  · exact List.forall_mem_map.2 fun name member => fits_ofString (keeps.locals name member)

theorem fits_functionItem {function : StoredFunction} (keeps : function.Keeps) :
    (functionItem function).Fits (depth + 1) := by
  apply fits_fields (by simp [Cbor.maxCount])
  simp only [List.forall_mem_cons, List.not_mem_nil, false_imp_iff, implies_true, and_true,
    Option.mem_def, Option.some.injEq, forall_eq']
  exact ⟨⟨by decide, fits_ofString keeps.name⟩, ⟨by decide, fits_ofInt keeps.entry⟩,
    ⟨by decide, fits_ofInt keeps.storage⟩, ⟨by decide, fits_ofInt keeps.arity⟩⟩

theorem fits_item {image : Image} (keeps : image.Keeps) : image.item.Fits (depth + 5) := by
  apply fits_fields (by simp [Cbor.maxCount])
  simp only [List.forall_mem_cons, List.not_mem_nil, false_imp_iff, implies_true, and_true,
    Option.mem_def, Option.some.injEq, forall_eq']
  refine ⟨⟨by decide, fits_ofInt keeps.version⟩, ⟨by decide, ?_⟩,
    ⟨by decide, fits_listItem (by simpa using keeps.fewStorages) ?_⟩,
    ⟨by decide, fits_listItem (by simpa using keeps.fewFunctions) ?_⟩⟩
  · split
    · exact fits_null
    · exact .bytes keeps.opcodes
  · exact List.forall_mem_map.2 fun storage member =>
      fits_storageItem (keeps.storages storage member)
  · exact List.forall_mem_map.2 fun function member =>
      fits_functionItem (keeps.functions function member)

end Bounds

section Reading

theorem readText_ofString (text : String) : readText (.ofString text) = some text := by
  have bytes := Text.ofBytes_toUTF8 text
  have joined : String.join [text] = text := by simp [String.join]
  simp only [readText, Item.ofString, untag, isNothing, bind, Option.bind, Bool.false_eq_true,
    if_false, List.mapM_cons, List.mapM_nil, bytes, pure, joined]

/-- An integer is written without tags, is not nothing, and has its own value. -/
theorem ofInt_reads (n : Int) : untag (.ofInt n) = some (.ofInt n) ∧
    isNothing (.ofInt n) = false ∧ integerOf? (.ofInt n) = some n := by
  unfold Item.ofInt
  split
  · have value : -1 - ((-1 - n).toNat : Int) = n := by omega
    exact ⟨rfl, rfl, congrArg some value⟩
  · have value : (n.toNat : Int) = n := by omega
    exact ⟨rfl, rfl, congrArg some value⟩

theorem readInt_ofInt {n : Int} (fits : Number.fitsInt64 n) : readInt (.ofInt n) = some n := by
  rcases ofInt_reads n with ⟨untagged, present, value⟩
  simp only [readInt, untagged, present, value, bind, Option.bind, Bool.false_eq_true, if_false]
  exact if_pos fits

theorem readByte_unsigned {n : Nat} (fits : n < 256) : readByte (.unsigned n) = some n := by
  simp [readByte, untag, isNothing, integerOf?, fits]

theorem readList_listItem {α : Type} {write : α → Item} {read : Item → Option α} {values : List α}
    (each : ∀ value ∈ values, read (write value) = some value) :
    readList read (listItem (values.map write)) = some values := by
  have listed : (values.map write).mapM read = some values := by
    induction values with
    | nil => rfl
    | cons value rest ih =>
        rcases List.forall_mem_cons.1 each with ⟨first, others⟩
        simp [first, ih others]
  cases values with
  | nil => rfl
  | cons value rest =>
      simp only [listItem, List.map_cons, List.isEmpty_cons, Bool.false_eq_true, if_false, readList,
        untag, isNothing, bind, Option.bind] at listed ⊢
      exact listed

theorem readBytes_bytes (bytes : List UInt8) :
    readBytes (if bytes.isEmpty then .null else .bytes [bytes]) = some bytes := by
  cases bytes with
  | nil => rfl
  | cons byte rest => simp [readBytes, untag]

theorem readFields_map (entries : List (Nat × Item)) :
    readFields (.map (entries.map fun entry => (.unsigned entry.1, entry.2))) = some entries := by
  have numbered : (entries.map fun entry => (Item.unsigned entry.1, entry.2)).mapM
      (fun entry => do return (← fieldNumber entry.1, entry.2)) =
        some (entries.map fun entry => (some entry.1, entry.2)) := by
    induction entries with
    | nil => rfl
    | cons entry rest ih =>
        simp only [List.map_cons, List.mapM_cons, ih]
        rfl
  have kept : ((entries.map fun entry => (some entry.1, entry.2)).filterMap
      fun entry => entry.1.map fun number => (number, entry.2)) = entries := by
    rw [List.filterMap_map]
    exact List.filterMap_some
  simp only [readFields, untag, isNothing, bind, Option.bind, Bool.false_eq_true, if_false]
    at numbered ⊢
  rw [numbered]
  exact congrArg some kept

theorem readFields_fields (entries : List (Nat × Option Item)) :
    readFields (fields entries) = some (presentFields entries) := by
  rw [fields_eq, readFields_map]

theorem lookup_presentFields {entries : List (Nat × Option Item)}
    (distinct : (entries.map (·.1)).Nodup) (number : Nat) :
    (presentFields entries).lookup number = (entries.lookup number).join := by
  induction entries with
  | nil => rfl
  | cons entry rest ih =>
      rcases entry with ⟨key, item⟩
      rcases List.nodup_cons.1 distinct with ⟨fresh, restDistinct⟩
      by_cases same : number = key
      · subst same
        cases item with
        | some item => simp [presentFields]
        | none =>
            have absent : rest.lookup number = none := by
              rw [List.lookup_eq_none_iff]
              intro other member
              have different : number ≠ other.1 := fun same =>
                fresh (List.mem_map.2 ⟨other, member, same.symm⟩)
              simpa using different
            have omitted : presentFields ((number, none) :: rest) = presentFields rest := rfl
            rw [omitted, ih restDistinct, absent, List.lookup_cons_self]
            rfl
      · have different : (number == key) = false := by simpa using same
        have later : ((key, item) :: rest).lookup number = rest.lookup number := by
          rw [List.lookup_cons, different]
        rw [later, ← ih restDistinct]
        cases item with
        | none => rfl
        | some item =>
            show ((key, item) :: presentFields rest).lookup number = _
            rw [List.lookup_cons, different]

/-- A field that is not left out is read, and one that is left out is zero. -/
theorem readField_presentFields {α : Type} {entries : List (Nat × Option Item)}
    (distinct : (entries.map (·.1)).Nodup) (number : Nat) (zero : α) (read : Item → Option α) :
    readField (presentFields entries) number zero read =
      (entries.lookup number).join.elim (some zero) read := by
  rw [readField, lookup_presentFields distinct]
  cases (entries.lookup number).join <;> rfl

theorem readValue_valueItem {value : StoredValue} (keeps : value.Keeps) :
    readValue (valueItem value) = some value := by
  have kind := readByte_unsigned keeps.kind
  have number : (if value.number == 0 then none else some (Item.float value.number)).elim (some 0)
      readNumber = some value.number := by
    split
    · rename_i zero
      exact congrArg some (keeps.zero zero).symm
    · rfl
  have text : (if value.text.isEmpty then none else some (Item.ofString value.text)).elim (some "")
      readText = some value.text := by
    split
    · rename_i empty
      exact congrArg some (String.isEmpty_iff.1 empty).symm
    · exact readText_ofString value.text
  have truth : ∀ value : Bool, (if value then some (Item.simple 21) else none).elim (some false)
      readBool = some value := by decide
  simp only [readValue, valueItem, readFields_fields]
  simp (disch := simp) only [readField_presentFields, bind, Option.bind]
  simp only [List.lookup, Nat.reduceBEq, Option.join_some, Option.elim_some, kind, number, text,
    truth, pure]

theorem readStorage_storageItem {storage : StoredStorage} (keeps : storage.Keeps) :
    readStorage (storageItem storage) = some storage := by
  have name := readText_ofString storage.name
  have arity := readInt_ofInt keeps.arity
  have constants := readList_listItem fun value member =>
    readValue_valueItem (keeps.constants value member)
  have locals := readList_listItem fun name (_ : name ∈ storage.locals) => readText_ofString name
  simp only [readStorage, storageItem, readFields_fields]
  simp (disch := simp) only [readField_presentFields, bind, Option.bind]
  simp only [List.lookup, Nat.reduceBEq, Option.join_some, Option.elim_some, name, arity,
    constants, locals, pure]

theorem readFunction_functionItem {function : StoredFunction} (keeps : function.Keeps) :
    readFunction (functionItem function) = some function := by
  have name := readText_ofString function.name
  have entry := readInt_ofInt keeps.entry
  have storage := readInt_ofInt keeps.storage
  have arity := readInt_ofInt keeps.arity
  simp only [readFunction, functionItem, readFields_fields]
  simp (disch := simp) only [readField_presentFields, bind, Option.bind]
  simp only [List.lookup, Nat.reduceBEq, Option.join_some, Option.elim_some, name, entry, storage,
    arity, pure]

theorem ofItem_item {image : Image} (keeps : image.Keeps) : ofItem? image.item = some image := by
  have version := readInt_ofInt keeps.version
  have opcodes := readBytes_bytes image.opcodes
  have storages := readList_listItem fun storage member =>
    readStorage_storageItem (keeps.storages storage member)
  have functions := readList_listItem fun function member =>
    readFunction_functionItem (keeps.functions function member)
  simp only [ofItem?, item, readFields_fields]
  simp (disch := simp) only [readField_presentFields, bind, Option.bind]
  simp only [List.lookup, Nat.reduceBEq, Option.join_some, Option.elim_some, version, opcodes,
    storages, functions, pure]

/-- An image is read back from its bytes. -/
theorem ofBytes_encode {image : Image} (keeps : image.Keeps) :
    ofBytes image.item.encode = .ok image := by
  have read := Cbor.read_encode (fits_item keeps : image.item.Fits (27 + 5))
  simp only [ofBytes, read, ofItem_item keeps]
  rfl

end Reading

section Zeros

/-- The sign of a zero is not written. -/
theorem valueItem_unsigned (value : StoredValue) : valueItem value.unsigned = valueItem value := by
  have zeros := Number.beq_zero_unsigned value.number
  cases zero : value.number == 0 with
  | true =>
      rw [zero] at zeros
      simp only [valueItem, StoredValue.unsigned, zeros, zero, if_true]
      rfl
  | false =>
      have same : Number.unsigned value.number = value.number :=
        Number.unsigned_of_ne (by simp [zero])
      simp only [valueItem, StoredValue.unsigned, same]

theorem storageItem_unsigned (storage : StoredStorage) :
    storageItem storage.unsigned = storageItem storage := by
  have same : valueItem ∘ StoredValue.unsigned = valueItem := funext valueItem_unsigned
  simp only [storageItem, StoredStorage.unsigned, List.map_map, same]

theorem item_unsigned (image : Image) : image.unsigned.item = image.item := by
  have same : storageItem ∘ StoredStorage.unsigned = storageItem := funext storageItem_unsigned
  simp only [item, Image.unsigned, List.map_map, same]
  rfl

end Zeros

/-- The codec of items reads what it wrote, and leaves out the sign of zeros. -/
theorem Codec.isFaithful_cbor : Codec.cbor.IsFaithful where
  reads image keeps := ⟨image.item.encode, rfl,
    congrArg (·.mapError DecodeProblem.message) (ofBytes_encode keeps)⟩
  omits image := congrArg (fun item : Item => Except.ok item.encode) (item_unsigned image)

end Image

end Lehce
