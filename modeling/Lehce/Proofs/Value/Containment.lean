import Mathlib.Data.Finset.Card
import Mathlib.Logic.Relation
import Lehce.Proofs.Value.InsertionOrder
import Lehce.Value.Heap

/-!
# What values contain

A list holds its items and a dictionary the values of its keys, and a value contains what is
reached from it by holding. Programs build values whose lists and dictionaries stand on the
heap, whose dictionaries were made by setting and erasing keys, and none of which contains
itself. Such a value has no more lists and dictionaries inside each other than the heap has
cells, so a procedure that follows this many of them sees all of it.
-/

namespace Lehce

open Relation

/-- The place that a list or a dictionary names. -/
def Value.place? : Value → Option Nat
  | list place | dict place => some place
  | _ => none

namespace Heap

/-- A list holds its items, and a dictionary the values of its keys. -/
def Holds (heap : Heap) (container inner : Value) : Prop :=
  match container with
  | .list place => inner ∈ heap.items place
  | .dict place => ∃ entry ∈ (heap.entries place).entries, entry.2 = inner
  | _ => False

/-- A value contains itself, what it holds, what that holds, and so on. -/
def Contains (heap : Heap) : Value → Value → Prop := ReflTransGen heap.Holds

/-- A value as programs build it on a heap. -/
structure IsBuilt (heap : Heap) (value : Value) : Prop where
  list : ∀ place, heap.Contains value (.list place) →
    ∃ items, heap.cells[place]? = some (.list items)
  dict : ∀ place, heap.Contains value (.dict place) →
    ∃ history, heap.cells[place]? = some (.dict (Dict.after history))
  acyclic : ∀ inner, heap.Contains value inner → ¬TransGen heap.Holds inner inner

/-- At most so many lists and dictionaries stand inside each other in a value. -/
def NestsWithin (heap : Heap) : Nat → Value → Prop
  | 0, value => value.place? = none
  | depth + 1, value => ∀ inner, heap.Holds value inner → heap.NestsWithin depth inner

variable {heap : Heap} {value inner : Value}

theorem exists_place_of_holds (holds : heap.Holds value inner) :
    ∃ place, value.place? = some place := by
  cases value with
  | list place => exact ⟨place, rfl⟩
  | dict place => exact ⟨place, rfl⟩
  | _ => cases holds

namespace IsBuilt

theorem of_contains (built : heap.IsBuilt value) (contains : heap.Contains value inner) :
    heap.IsBuilt inner where
  list place later := built.list place (contains.trans later)
  dict place later := built.dict place (contains.trans later)
  acyclic other later := built.acyclic other (contains.trans later)

theorem of_holds (built : heap.IsBuilt value) (holds : heap.Holds value inner) :
    heap.IsBuilt inner :=
  built.of_contains (.single holds)

theorem cell (built : heap.IsBuilt value) {place : Nat} (named : value.place? = some place) :
    place < heap.cells.size := by
  cases value with
  | list other =>
      cases named
      rcases built.list place .refl with ⟨items, found⟩
      exact (Array.getElem?_eq_some_iff.1 found).1
  | dict other =>
      cases named
      rcases built.dict place .refl with ⟨history, found⟩
      exact (Array.getElem?_eq_some_iff.1 found).1
  | _ => cases named

/-- A place is that of a list or of a dictionary, not of both. -/
theorem eq_of_place? (built : heap.IsBuilt value) (otherBuilt : heap.IsBuilt inner)
    {place : Nat} (named : value.place? = some place) (otherNamed : inner.place? = some place) :
    value = inner := by
  cases value with
  | list here =>
      cases named
      rcases built.list place .refl with ⟨items, found⟩
      cases inner with
      | list there =>
          cases otherNamed
          rfl
      | dict there =>
          cases otherNamed
          rcases otherBuilt.dict place .refl with ⟨history, otherFound⟩
          rw [found] at otherFound
          cases otherFound
      | _ => cases otherNamed
  | dict here =>
      cases named
      rcases built.dict place .refl with ⟨history, found⟩
      cases inner with
      | dict there =>
          cases otherNamed
          rfl
      | list there =>
          cases otherNamed
          rcases otherBuilt.list place .refl with ⟨items, otherFound⟩
          rw [found] at otherFound
          cases otherFound
      | _ => cases otherNamed
  | _ => cases named

/-- The places that were passed on the way to a value are not met again, so no more of them are
to come than the heap has besides. -/
theorem nestsWithin_of_passed (built : heap.IsBuilt value) {depth : Nat} {passed : Finset Nat}
    (inside : passed ⊆ Finset.range heap.cells.size)
    (apart : ∀ inner place, heap.Contains value inner → inner.place? = some place →
      place ∉ passed)
    (enough : heap.cells.size ≤ depth + passed.card) : heap.NestsWithin depth value := by
  induction depth generalizing value passed with
  | zero =>
      -- all places of the heap were passed, so the value has none
      have all : passed = Finset.range heap.cells.size :=
        Finset.eq_of_subset_of_card_le inside (by simpa using enough)
      cases named : value.place? with
      | none => exact named
      | some place =>
          have met := apart value place .refl named
          rw [all, Finset.mem_range] at met
          exact absurd (built.cell named) met
  | succ depth ih =>
      intro inner holds
      rcases exists_place_of_holds holds with ⟨place, named⟩
      have fresh : place ∉ passed := apart value place .refl named
      apply @ih inner (built.of_holds holds) (insert place passed)
      · intro other member
        rcases Finset.mem_insert.1 member with rfl | old
        · exact Finset.mem_range.2 (built.cell named)
        · exact inside old
      · intro later other contains otherNamed member
        rcases Finset.mem_insert.1 member with rfl | old
        · have same := eq_of_place? built ((built.of_holds holds).of_contains contains) named
            otherNamed
          rw [← same] at contains
          exact built.acyclic value .refl (TransGen.head' holds contains)
        · exact apart later other (.head holds contains) otherNamed old
      · rw [Finset.card_insert_of_notMem fresh]
        omega

theorem nestsWithin (built : heap.IsBuilt value) : heap.NestsWithin heap.cells.size value :=
  built.nestsWithin_of_passed (Finset.empty_subset _) (fun _ _ _ _ => Finset.notMem_empty _)
    (Nat.le_add_right _ _)

/-- What holds of a value when it holds of all that the value holds, holds of every value that
programs build. -/
@[elab_as_elim]
theorem induction {motive : (value : Value) → heap.IsBuilt value → Prop}
    (step : ∀ value (built : heap.IsBuilt value),
      (∀ inner (holds : heap.Holds value inner), motive inner (built.of_holds holds)) →
      motive value built)
    {value : Value} (built : heap.IsBuilt value) : motive value built := by
  have within : ∀ depth value, heap.NestsWithin depth value → ∀ built : heap.IsBuilt value,
      motive value built := by
    intro depth
    induction depth with
    | zero =>
        intro value nests built
        refine step value built fun inner holds => ?_
        rcases exists_place_of_holds holds with ⟨place, named⟩
        rw [NestsWithin, named] at nests
        cases nests
    | succ depth ih =>
        intro value nests built
        exact step value built fun inner holds => ih inner (nests inner holds)
          (built.of_holds holds)
  exact within _ value built.nestsWithin built

end IsBuilt

/-- Values of some sort are built when their lists and dictionaries stand on the heap and hold
values of this sort at earlier places only. -/
theorem isBuilt_of_ascending {sort : Value → Prop}
    (listed : ∀ place, sort (.list place) → ∃ items, heap.cells[place]? = some (.list items))
    (made : ∀ place, sort (.dict place) →
      ∃ history, heap.cells[place]? = some (.dict (Dict.after history)))
    (ascending : ∀ container inner, sort container → heap.Holds container inner → sort inner ∧
      ∀ place ∈ inner.place?, ∀ above ∈ container.place?, place < above)
    (sorted : sort value) : heap.IsBuilt value := by
  have kept : ∀ inner, heap.Contains value inner → sort inner := by
    intro inner contains
    induction contains with
    | refl => exact sorted
    | tail _ holds ih => exact (ascending _ _ ih holds).1
  refine ⟨fun place contains => listed place (kept _ contains),
    fun place contains => made place (kept _ contains), fun inner contains cycle => ?_⟩
  have below : ∀ later, TransGen heap.Holds inner later → sort later ∧
      ∀ place ∈ later.place?, ∀ above ∈ inner.place?, place < above := by
    intro later reaches
    induction reaches with
    | single holds => exact ascending inner _ (kept inner contains) holds
    | @tail between last _ holds ih =>
        rcases ascending between last ih.1 holds with ⟨lastSorted, lower⟩
        refine ⟨lastSorted, fun place named above aboveNamed => ?_⟩
        rcases exists_place_of_holds holds with ⟨middle, middleNamed⟩
        exact (lower place named middle middleNamed).trans (ih.2 middle middleNamed above
          aboveNamed)
  rcases TransGen.head'_iff.1 cycle with ⟨_, holds, _⟩
  rcases exists_place_of_holds holds with ⟨place, named⟩
  exact lt_irrefl place ((below inner cycle).2 place named place named)

end Heap

end Lehce
