import Std.Data.HashMap

/-!
# Tables of places

Several lists of the library are kept together with a table that says at which
place each key stands: entries of dictionaries, variables and constants of scopes,
functions of programs. `Indexes places keys` says that the table is right. It
follows that no key is repeated, and it survives the addition of a new key.
-/

namespace Lehce

variable {κ : Type} [BEq κ] [Hashable κ] [LawfulBEq κ]

/-- The table says exactly where each key stands. -/
def Indexes (places : Std.HashMap κ Nat) (keys : List κ) : Prop :=
  ∀ (key : κ) (place : Nat), places[key]? = some place ↔ keys[place]? = some key

namespace Indexes

variable {places : Std.HashMap κ Nat} {keys : List κ}

theorem empty : Indexes ({} : Std.HashMap κ Nat) [] := by
  intro key place
  simp

theorem contains_iff (indexes : Indexes places keys) (key : κ) :
    places.contains key = true ↔ key ∈ keys := by
  rw [Std.HashMap.contains_eq_isSome_getElem?, Option.isSome_iff_exists, List.mem_iff_getElem?]
  exact exists_congr fun place => indexes key place

theorem getElem?_eq_none_iff (indexes : Indexes places keys) (key : κ) :
    places[key]? = none ↔ key ∉ keys := by
  rw [← indexes.contains_iff, Std.HashMap.contains_eq_isSome_getElem?]
  simp

omit [LawfulBEq κ] in
theorem nodup (indexes : Indexes places keys) : keys.Nodup := by
  rw [List.nodup_iff_pairwise_ne, List.pairwise_iff_getElem]
  intro first second firstInside secondInside before equal
  have firstPlace := (indexes keys[first] first).2 (List.getElem?_eq_getElem firstInside)
  have secondPlace := (indexes keys[second] second).2 (List.getElem?_eq_getElem secondInside)
  rw [equal, secondPlace] at firstPlace
  simp only [Option.some.injEq] at firstPlace
  omega

/-- A key that the table does not know can be added at the end. -/
theorem insert (indexes : Indexes places keys) {key : κ} (fresh : key ∉ keys) :
    Indexes (places.insert key keys.length) (keys ++ [key]) := by
  intro other place
  rw [Std.HashMap.getElem?_insert, List.getElem?_append]
  by_cases sameKey : key = other
  · subst sameKey
    simp only [beq_self_eq_true, if_true, Option.some.injEq]
    by_cases inside : place < keys.length
    · have different : keys[place]? ≠ some key := fun found =>
        fresh (List.mem_of_getElem? found)
      simp only [inside, if_true]
      constructor
      · intro equal
        omega
      · exact fun found => absurd found different
    · simp only [inside, if_false]
      by_cases last : place = keys.length
      · simp [last]
      · have behind : place - keys.length ≠ 0 := by omega
        simp only [List.getElem?_singleton, behind, if_false, reduceCtorEq, iff_false]
        exact fun equal => last equal.symm
  · have notSame : (key == other) = false := by simpa using sameKey
    simp only [notSame, Bool.false_eq_true, if_false]
    by_cases inside : place < keys.length
    · simp only [inside, if_true]
      exact indexes other place
    · have outside : keys[place]? = none := by simp; omega
      have absent : places[other]? ≠ some place := by
        rw [ne_eq, indexes other place, outside]
        simp
      simp only [inside, if_false]
      constructor
      · exact fun found => absurd found absent
      · intro found
        rw [List.getElem?_singleton] at found
        split at found
        · exact absurd (Option.some.inj found) sameKey
        · simp at found

end Indexes

end Lehce
