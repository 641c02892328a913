import Lehce.Code.Scope
import Lehce.Natives.Standard

/-!
# Registries without some functions

A registry from which functions were taken finds the others as before. Where all full names
have a dot, every name stands for at most one full name, so nothing that was taken away is
replaced by something else: the names that still stand for a function stand for the same one.
-/

namespace Lehce

/-- Whatever one resolver knows, the other one knows by the same full name. -/
def Code.Narrows (fewer natives : Code.Resolver) : Prop :=
  ∀ name full, fewer name = some full → natives name = some full

namespace Registry

variable {registry : Registry} {names : List String} {name full : String}

/-- The full names of the functions that some names stand for. -/
def removed (registry : Registry) (names : List String) : List String :=
  names.filterMap registry.resolve

/-- All full names have a dot. -/
def IsQualified (registry : Registry) : Prop :=
  ∀ native ∈ registry.natives, '.' ∈ native.name.toList

/-- The one full name that a name can stand for. -/
def fullName (name : String) : String := if '.' ∈ name.toList then name else "base." ++ name

theorem find?_eq_none_of_undotted (qualified : registry.IsQualified)
    (undotted : '.' ∉ name.toList) : registry.find? name = none := by
  rw [find?, List.find?_eq_none]
  intro native member same
  have named : native.name = name := by simpa using same
  exact undotted (named ▸ qualified native member)

theorem resolve_eq (qualified : registry.IsQualified) (name : String) :
    registry.resolve name =
      if (registry.find? (fullName name)).isSome then some (fullName name) else none := by
  unfold resolve fullName
  by_cases dotted : '.' ∈ name.toList
  · simp [dotted]
  · simp [dotted, find?_eq_none_of_undotted qualified dotted]

theorem IsQualified.without (qualified : registry.IsQualified) (names : List String) :
    (registry.without names).IsQualified :=
  fun native member => qualified native (List.mem_filter.1 member).1

theorem find?_without_of_mem (member : name ∈ registry.removed names) :
    (registry.without names).find? name = none := by
  rw [find?, List.find?_eq_none]
  intro native listed same
  have kept := (List.mem_filter.1 listed).2
  have named : native.name = name := by simpa using same
  rw [named] at kept
  simp only [Bool.not_eq_true', List.contains_eq_mem, decide_eq_false_iff_not] at kept
  exact kept member

theorem find?_without_of_not_mem (other : name ∉ registry.removed names) :
    (registry.without names).find? name = registry.find? name := by
  rw [find?, find?, without, List.find?_filter]
  congr 1
  funext native
  cases same : native.name == name with
  | false => simp
  | true =>
      have named : native.name = name := by simpa using same
      have kept : (names.filterMap registry.resolve).contains name = false := by
        rw [List.contains_eq_mem]
        exact decide_eq_false other
      rw [named, kept]
      rfl

/-- What a name stands for without some functions: the same as before, or nothing. -/
theorem resolve_without_eq_some_iff (qualified : registry.IsQualified) :
    (registry.without names).resolve name = some full ↔
      registry.resolve name = some full ∧ full ∉ registry.removed names := by
  rw [resolve_eq qualified, resolve_eq (qualified.without names)]
  by_cases member : fullName name ∈ registry.removed names
  · simp only [find?_without_of_mem member, Option.isSome_none, Bool.false_eq_true, if_false,
      reduceCtorEq, false_iff]
    rintro ⟨resolved, other⟩
    split at resolved
    · cases resolved
      exact other member
    · cases resolved
  · rw [find?_without_of_not_mem member]
    split
    · simp only [Option.some.injEq]
      constructor
      · rintro rfl
        exact ⟨rfl, member⟩
      · exact fun both => both.1
    · simp

theorem narrows_without (qualified : registry.IsQualified) (names : List String) :
    Code.Narrows (registry.without names).resolve registry.resolve :=
  fun _ _ resolved => ((resolve_without_eq_some_iff qualified).1 resolved).1

end Registry

theorem Natives.isQualified_standard : standard.IsQualified := by
  have dotted : standard.natives.all (fun native => native.name.toList.contains '.') = true := by
    decide +kernel
  intro native member
  simpa using List.all_eq_true.1 dotted native member

end Lehce
