import Std.Data.TreeMap

/-!
# Dictionaries

A dictionary maps texts to values and remembers the order in which its keys were
first set. Setting a key that is present keeps its place; a key that was deleted
and set again comes last.

Keys and values are kept apart: the keys stand in a row, and the values are found by
their keys. An operation changes both, each in its own way, and nothing but the
operations keeps them in step. A `RawDict` is such a pair, and a `Dict` is one in
which the keys of the row are those that have values.
-/

namespace Lehce

/-- Replaces the value of a key in a list of entries, or adds the key at the end. -/
def putEntry {α : Type} (key : String) (value : α) : List (String × α) → List (String × α)
  | [] => [(key, value)]
  | entry :: rest =>
    if entry.1 = key then (key, value) :: rest else entry :: putEntry key value rest

/-- A row of keys, and values by their keys. -/
structure RawDict (α : Type) where
  order : Array String := #[]
  values : Std.TreeMap String α := {}
  deriving Inhabited

namespace RawDict

variable {α : Type}

/-- The keys in order. -/
def keys (dict : RawDict α) : List String := dict.order.toList

/-- The number of keys. -/
def size (dict : RawDict α) : Nat := dict.order.size

/-- The value of a key. -/
def get? (dict : RawDict α) (key : String) : Option α := dict.values[key]?

/-- Some keys with the values that are read of them; a key without one is left out. -/
def listed (read : String → Option α) (keys : List String) : List (String × α) :=
  keys.filterMap fun key => (read key).map fun value => (key, value)

/-- The keys with their values in order. -/
def entries (dict : RawDict α) : List (String × α) := listed dict.get? dict.keys

/-- Sets a key to a value. A key without a value is new and comes last. -/
def set (dict : RawDict α) (key : String) (value : α) : RawDict α where
  order := if dict.values.contains key then dict.order else dict.order.push key
  values := dict.values.insert key value

/-- Removes a key that has a value; the keys behind it in the row move up. -/
def erase (dict : RawDict α) (key : String) : RawDict α :=
  if dict.values.contains key then
    { order := dict.order.erase key, values := dict.values.erase key }
  else dict

/-- The keys of the row are distinct, and they are those that have values. -/
structure InStep (dict : RawDict α) : Prop where
  distinct : dict.keys.Nodup
  domain : ∀ key, key ∈ dict.keys ↔ (dict.get? key).isSome

variable {dict : RawDict α} {key other : String} {value : α}

theorem contains_iff : dict.values.contains key = true ↔ (dict.get? key).isSome = true := by
  rw [get?, Std.TreeMap.contains_eq_isSome_getElem?]

@[simp]
theorem keys_empty : ({} : RawDict α).keys = [] := rfl

@[simp]
theorem get?_empty (key : String) : ({} : RawDict α).get? key = none :=
  Std.TreeMap.getElem?_emptyc

theorem get?_set (dict : RawDict α) (key other : String) (value : α) :
    (dict.set key value).get? other = if key = other then some value else dict.get? other := by
  rw [get?, set, Std.TreeMap.getElem?_insert]
  simp only [Std.compare_eq_iff_eq]
  rfl

theorem get?_erase (dict : RawDict α) (key other : String) :
    (dict.erase key).get? other = if key = other then none else dict.get? other := by
  unfold erase
  split
  · rw [get?, Std.TreeMap.getElem?_erase]
    simp only [Std.compare_eq_iff_eq]
    rfl
  · rename_i absent
    split
    · rename_i same
      rw [← same, ← Option.not_isSome_iff_eq_none, ← contains_iff]
      exact absent
    · rfl

namespace InStep

theorem keys_set_of_mem (inStep : dict.InStep) (member : key ∈ dict.keys) :
    (dict.set key value).keys = dict.keys := by
  rw [keys, set, if_pos (contains_iff.2 ((inStep.domain key).1 member)), keys]

theorem keys_set_of_not_mem (inStep : dict.InStep) (absent : key ∉ dict.keys) :
    (dict.set key value).keys = dict.keys ++ [key] := by
  have without : ¬dict.values.contains key = true :=
    fun has => absent ((inStep.domain key).2 (contains_iff.1 has))
  rw [keys, set, if_neg without, Array.toList_push, keys]

theorem keys_erase (inStep : dict.InStep) (key : String) :
    (dict.erase key).keys = dict.keys.filter (· != key) := by
  have removed : dict.keys.erase key = dict.keys.filter (· != key) :=
    inStep.distinct.erase_eq_filter key
  rw [← removed, erase]
  split
  · exact congrArg Array.toList List.erase_toArray
  · rename_i absent
    rw [List.erase_of_not_mem fun member => absent (contains_iff.2 ((inStep.domain key).1 member))]

theorem mem_keys_set (inStep : dict.InStep) :
    other ∈ (dict.set key value).keys ↔ key = other ∨ other ∈ dict.keys := by
  by_cases member : key ∈ dict.keys
  · rw [inStep.keys_set_of_mem member, iff_or_self]
    rintro rfl
    exact member
  · rw [inStep.keys_set_of_not_mem member, List.mem_append, List.mem_singleton, or_comm, eq_comm]

theorem mem_keys_erase (inStep : dict.InStep) :
    other ∈ (dict.erase key).keys ↔ key ≠ other ∧ other ∈ dict.keys := by
  rw [inStep.keys_erase, List.mem_filter, bne_iff_ne, and_comm, ne_comm]

/-- An empty row and no values. -/
theorem empty : ({} : RawDict α).InStep where
  distinct := List.nodup_nil
  domain key := by simp

/-- Setting a key leaves the row and the values in step. -/
theorem set (inStep : dict.InStep) (key : String) (value : α) : (dict.set key value).InStep where
  distinct := by
    by_cases member : key ∈ dict.keys
    · rw [inStep.keys_set_of_mem member]
      exact inStep.distinct
    · rw [inStep.keys_set_of_not_mem member]
      have apart : ∀ other ∈ dict.keys, other ≠ key := fun other inRow same =>
        member (same ▸ inRow)
      exact List.nodup_append.2 ⟨inStep.distinct, by simp, by simpa using apart⟩
  domain other := by
    rw [inStep.mem_keys_set, get?_set]
    split
    · rename_i same
      simp [same]
    · rename_i different
      simp [different, inStep.domain other]

/-- Removing a key leaves the row and the values in step. -/
theorem erase (inStep : dict.InStep) (key : String) : (dict.erase key).InStep where
  distinct := by
    rw [inStep.keys_erase]
    exact inStep.distinct.filter _
  domain other := by
    rw [inStep.mem_keys_erase, get?_erase]
    split
    · rename_i same
      simp [same]
    · rename_i different
      simp [different, inStep.domain other]

end InStep

end RawDict

/-- A dictionary: a row of keys and values by their keys that are in step. -/
structure Dict (α : Type) extends RawDict α where
  inStep : toRawDict.InStep

namespace Dict

variable {α : Type}

instance : EmptyCollection (Dict α) := ⟨⟨{}, .empty⟩⟩

instance : Inhabited (Dict α) := ⟨{}⟩

/-- Sets a key to a value. -/
def set (dict : Dict α) (key : String) (value : α) : Dict α :=
  ⟨dict.toRawDict.set key value, dict.inStep.set key value⟩

/-- Removes a key. -/
def erase (dict : Dict α) (key : String) : Dict α :=
  ⟨dict.toRawDict.erase key, dict.inStep.erase key⟩

/-- The dictionary in which some keys were set one after the other. -/
def ofList (entries : List (String × α)) : Dict α :=
  entries.foldl (fun dict entry => dict.set entry.1 entry.2) {}

end Dict

end Lehce
