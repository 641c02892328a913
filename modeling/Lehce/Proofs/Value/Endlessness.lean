import Mathlib.Data.Finset.Prod
import Mathlib.Data.Fintype.Pigeonhole
import Lehce.Proofs.Value.Containment

/-!
# Values without an end

A value is written out, and compared with another, by a procedure that calls itself for what
the value holds. It may call itself so many times in a row, and answers nothing when that is not
enough. The more calls it may make, the more it answers, and each further call in a row must
answer for some list or dictionary of the heap that had no answer before, or nothing new is ever
answered. There are only as many as the heap has places, or pairs of places, so that many calls
and one more answer all that any number of calls answers, and what is answered obeys the
procedure without a bound. Written out is every value in which no list or dictionary contains
itself, and nothing else.
-/

namespace Lehce

open Relation

section Unrolling

variable {α β : Type} {step : (α → Option β) → α → Option β} {inner outer : α → Option β}

/-- Whatever a procedure answers, another answers too. -/
def Extends (outer inner : α → Option β) : Prop := ∀ x y, inner x = some y → outer x = some y

/-- A procedure that answers more when its calls of itself answer more. -/
def IsMonotone (step : (α → Option β) → α → Option β) : Prop :=
  ∀ inner outer, Extends outer inner → Extends (step outer) (step inner)

theorem Extends.isSome (extended : Extends outer inner) {x : α} (answers : (inner x).isSome) :
    (outer x).isSome := by
  rcases Option.isSome_iff_exists.1 answers with ⟨y, answer⟩
  rw [extended x y answer, Option.isSome_some]

theorem Extends.eq (extended : Extends outer inner)
    (converse : ∀ x, (outer x).isSome → (inner x).isSome) : outer = inner := by
  funext x
  cases answer : inner x with
  | some y => exact extended x y answer
  | none =>
      cases later : outer x with
      | none => rfl
      | some y => simpa [later, answer] using converse x

theorem IsMonotone.unroll_succ (monotone : IsMonotone step) (depth : Nat) :
    Extends (unroll step (depth + 1)) (unroll step depth) := by
  induction depth with
  | zero => exact fun x y answer => nomatch answer
  | succ depth ih => exact monotone _ _ ih

/-- More calls in a row never change an answer. -/
theorem IsMonotone.unroll_le (monotone : IsMonotone step) {depth more : Nat} (le : depth ≤ more) :
    Extends (unroll step more) (unroll step depth) := by
  induction le with
  | refl => exact fun _ _ answer => answer
  | step _ ih => exact fun x y answer => monotone.unroll_succ _ x y (ih x y answer)

open Classical in
/-- The arguments among some that are answered with one call more than so many in a row. -/
noncomputable def answered (step : (α → Option β) → α → Option β) (among : Finset α)
    (depth : Nat) : Finset α :=
  among.filter fun x => (unroll step (depth + 1) x).isSome

variable {among : Finset α}

/-- Either each further call answered another of the arguments, or it answered nothing new. -/
theorem card_answered (monotone : IsMonotone step)
    (rest : ∀ x ∉ among, (unroll step 1 x).isSome) (depth : Nat) :
    depth ≤ (answered step among depth).card ∨
      unroll step (depth + 2) = unroll step (depth + 1) := by
  induction depth with
  | zero => exact .inl (Nat.zero_le _)
  | succ depth ih =>
      rcases ih with growing | stopped
      · have within : answered step among depth ⊆ answered step among (depth + 1) := by
          intro x member
          have answers := (Finset.mem_filter.1 member).2
          exact Finset.mem_filter.2 ⟨(Finset.mem_filter.1 member).1,
            (monotone.unroll_succ (depth + 1)).isSome answers⟩
        by_cases same : answered step among depth = answered step among (depth + 1)
        · -- nothing new was answered, so nothing new will be
          have stopped : unroll step (depth + 2) = unroll step (depth + 1) := by
            refine (monotone.unroll_succ (depth + 1)).eq fun x answers => ?_
            by_cases inside : x ∈ among
            · have member : x ∈ answered step among depth :=
                same ▸ Finset.mem_filter.2 ⟨inside, answers⟩
              exact (Finset.mem_filter.1 member).2
            · exact (monotone.unroll_le (Nat.le_add_left 1 depth)).isSome (rest x inside)
          exact .inr (congrArg step stopped)
        · have more := Finset.card_lt_card (Finset.ssubset_iff_subset_ne.2 ⟨within, same⟩)
          exact .inl (by omega)
      · exact .inr (congrArg step stopped)

/-- With one call more than there are arguments to be answered, all that is ever answered is. -/
theorem unroll_fixed (monotone : IsMonotone step) (rest : ∀ x ∉ among, (unroll step 1 x).isSome)
    {bound : Nat} (few : among.card ≤ bound) :
    step (unroll step (bound + 1)) = unroll step (bound + 1) := by
  rcases card_answered monotone rest bound with growing | stopped
  · have all : answered step among bound = among :=
      Finset.eq_of_subset_of_card_le (Finset.filter_subset _ _) (few.trans growing)
    refine (monotone.unroll_succ (bound + 1)).eq fun x _ => ?_
    by_cases inside : x ∈ among
    · exact (Finset.mem_filter.1 (all.symm ▸ inside : x ∈ answered step among bound)).2
    · exact (monotone.unroll_le (Nat.le_add_left 1 bound)).isSome (rest x inside)
  · exact stopped

theorem unroll_eq_none_iff (monotone : IsMonotone step)
    (rest : ∀ x ∉ among, (unroll step 1 x).isSome) {bound : Nat} (few : among.card ≤ bound)
    (x : α) : unroll step (bound + 1) x = none ↔ ∀ depth, unroll step depth x = none := by
  refine ⟨fun silent depth => ?_, fun silent => silent _⟩
  have fixed (more : Nat) : unroll step (bound + 1 + more) = unroll step (bound + 1) := by
    induction more with
    | zero => rfl
    | succ more ih => exact (congrArg step ih).trans (unroll_fixed monotone rest few)
  rw [Option.eq_none_iff_forall_not_mem]
  intro y answer
  have later := monotone.unroll_le (Nat.le_add_left depth (bound + 1)) x y answer
  rw [fixed, silent] at later
  cases later

end Unrolling

namespace Heap

variable {heap : Heap} {value a b : Value}

/-- The value that names what stands at a place, if anything does. -/
def named (heap : Heap) (place : Nat) : Value :=
  match heap.cells[place]? with
  | some (.list _) => .list place
  | some (.dict _) => .dict place
  | none => .empty

open Classical in
/-- The lists and dictionaries that stand on the heap. -/
noncomputable def standing (heap : Heap) : Finset Value :=
  (Finset.range heap.cells.size).image heap.named

open Classical in
theorem card_standing_le (heap : Heap) : heap.standing.card ≤ heap.cells.size :=
  Finset.card_image_le.trans_eq (Finset.card_range _)

open Classical in
/-- Only what stands on the heap holds anything. -/
theorem mem_standing_of_holds {inner : Value} (holds : heap.Holds value inner) :
    value ∈ heap.standing := by
  cases value with
  | list place =>
      have member : inner ∈ heap.items place := holds
      cases found : heap.cells[place]? with
      | none => simp [items, found] at member
      | some cell =>
          cases cell with
          | dict entries => simp [items, found] at member
          | list items =>
              have inside := (Array.getElem?_eq_some_iff.1 found).1
              exact Finset.mem_image.2 ⟨place, Finset.mem_range.2 inside, by rw [named, found]⟩
  | dict place =>
      obtain ⟨entry, member, -⟩ : ∃ entry ∈ (heap.entries place).entries, entry.2 = inner := holds
      cases found : heap.cells[place]? with
      | none =>
          rw [entries, found] at member
          cases member
      | some cell =>
          cases cell with
          | list items =>
              rw [entries, found] at member
              cases member
          | dict entries =>
              have inside := (Array.getElem?_eq_some_iff.1 found).1
              exact Finset.mem_image.2 ⟨place, Finset.mem_range.2 inside, by rw [named, found]⟩
  | _ => cases holds

section Writing

theorem mapM_isSome_iff {γ δ : Type} {f : γ → Option δ} {xs : List γ} :
    (xs.mapM f).isSome ↔ ∀ x ∈ xs, (f x).isSome := by
  induction xs with
  | nil => simp
  | cons x rest ih =>
      rw [List.mapM_cons, List.forall_mem_cons, ← ih]
      cases f x <;> cases rest.mapM f <;> simp

theorem mapM_extends {γ δ : Type} {f g : γ → Option δ} {xs : List γ} {ys : List δ}
    (each : ∀ x ∈ xs, ∀ y, f x = some y → g x = some y) (written : xs.mapM f = some ys) :
    xs.mapM g = some ys := by
  have same : xs.mapM g = xs.mapM f := by
    have answers := mapM_isSome_iff.1 (Option.isSome_iff_exists.2 ⟨ys, written⟩)
    clear written
    induction xs with
    | nil => rfl
    | cons x rest ih =>
        obtain ⟨y, first⟩ := Option.isSome_iff_exists.1 (answers x List.mem_cons_self)
        rw [List.mapM_cons, List.mapM_cons, each x List.mem_cons_self y first, first,
          ih (fun other later => each other (List.mem_cons_of_mem x later))
            fun other later => answers other (List.mem_cons_of_mem x later)]
  rw [same, written]

/-- A value is written out when all that it holds is. -/
theorem datumStep_isSome_iff {inner : Value → Option Datum} :
    (heap.datumStep inner value).isSome ↔ ∀ held, heap.Holds value held → (inner held).isSome := by
  cases value with
  | list place =>
      simp only [datumStep, Option.isSome_map, mapM_isSome_iff, Array.mem_toList_iff, Holds]
  | dict place =>
      simp only [datumStep, Option.isSome_map, mapM_isSome_iff, Holds]
      exact ⟨fun every held ⟨entry, member, same⟩ => same ▸ every entry member,
        fun every entry member => every entry.2 ⟨entry, member, rfl⟩⟩
  | _ => simp [datumStep, Holds]

theorem isMonotone_datumStep (heap : Heap) : IsMonotone heap.datumStep := by
  intro inner outer extended value datum written
  cases value with
  | list place =>
      rcases Option.map_eq_some_iff.1 written with ⟨items, each, rfl⟩
      exact Option.map_eq_some_iff.2 ⟨items,
        mapM_extends (fun item _ => extended item) each, rfl⟩
  | dict place =>
      rcases Option.map_eq_some_iff.1 written with ⟨entries, each, rfl⟩
      refine Option.map_eq_some_iff.2
        ⟨entries, mapM_extends (fun entry _ pair made => ?_) each, rfl⟩
      rcases Option.map_eq_some_iff.1 made with ⟨datum, inside, rfl⟩
      rw [extended _ _ inside, Option.map_some]
  | _ => exact written

theorem datumStep_of_not_standing (apart : value ∉ heap.standing) :
    (unroll heap.datumStep 1 value).isSome :=
  datumStep_isSome_iff.2 fun _ holds => absurd (mem_standing_of_holds holds) apart

/-- A value is written out by writing out what it holds. -/
theorem datum_eq (heap : Heap) (value : Value) :
    heap.datum value = heap.datumStep heap.datum value :=
  (congrFun (unroll_fixed heap.isMonotone_datumStep (fun _ => datumStep_of_not_standing)
    heap.card_standing_le) value).symm

/-- A value is not written out when no number of calls in a row is enough. -/
theorem datum_eq_none_iff : heap.datum value = none ↔
    ∀ depth, unroll heap.datumStep depth value = none :=
  unroll_eq_none_iff heap.isMonotone_datumStep (fun _ => datumStep_of_not_standing)
    heap.card_standing_le value

/-- There is an end to what a value holds, to what that holds, and so on. -/
def Ends (heap : Heap) (value : Value) : Prop :=
  Acc (fun held container => heap.Holds container held) value

/-- A value is written out when there is an end to it, and only then. -/
theorem datum_isSome_iff : (heap.datum value).isSome ↔ heap.Ends value := by
  constructor
  · have ends : ∀ depth value, (unroll heap.datumStep depth value).isSome → heap.Ends value := by
      intro depth
      induction depth with
      | zero => exact fun value answers => by cases answers
      | succ depth ih =>
          exact fun value answers => .intro value fun held holds =>
            ih held (datumStep_isSome_iff.1 answers held holds)
    exact ends _ value
  · intro ends
    induction ends with
    | intro value _ ih =>
        rw [datum_eq]
        exact datumStep_isSome_iff.2 ih

/-- There is an end to a value when nothing in it contains itself. -/
theorem ends_iff : heap.Ends value ↔
    ∀ inner, heap.Contains value inner → ¬TransGen heap.Holds inner inner := by
  constructor
  · intro ends inner contains
    have endsInner : heap.Ends inner := by
      induction contains with
      | refl => exact ends
      | tail _ holds ih => exact Acc.inv ih holds
    -- something that contains itself holds something that contains itself
    induction endsInner with
    | intro inner _ ih =>
        intro cycle
        obtain ⟨next, holds, back⟩ := TransGen.head'_iff.1 cycle
        exact ih next holds (contains.tail holds) (TransGen.tail'_iff.2 ⟨inner, back, holds⟩)
  · intro acyclic
    by_contra endless
    have next (value : {value // ¬heap.Ends value}) :
        ∃ held : {value // ¬heap.Ends value}, heap.Holds value.1 held.1 := by
      by_contra none
      exact value.2 (.intro value.1 fun held holds => by_contra fun goesOn =>
        none ⟨⟨held, goesOn⟩, holds⟩)
    choose follow follows using next
    -- a way that goes on for ever meets one of the places of the heap twice
    let way (count : Nat) : Value := (follow^[count] ⟨value, endless⟩).1
    have forth (count : Nat) : heap.Holds (way count) (way (count + 1)) := by
      simp only [way, Function.iterate_succ_apply']
      exact follows _
    have reaches (first count : Nat) : heap.Contains (way first) (way (first + count)) := by
      induction count with
      | zero => exact .refl
      | succ count ih => exact ih.tail (forth _)
    have apart {i j : Nat} (less : i < j) : way i ≠ way j := by
      intro same
      obtain ⟨count, rfl⟩ := Nat.exists_eq_add_of_lt less
      have contains : heap.Contains (way 0) (way i) := by simpa using reaches 0 i
      refine acyclic (way i) contains ?_
      exact TransGen.tail'_iff.2 ⟨_, reaches i count, same ▸ forth (i + count)⟩
    obtain ⟨i, -, j, -, different, same⟩ := Set.infinite_univ.exists_ne_map_eq_of_mapsTo
      (fun count _ => Finset.mem_coe.2 (mem_standing_of_holds (forth count)))
      heap.standing.finite_toSet
    rcases lt_or_gt_of_ne different with less | less
    · exact apart less same
    · exact apart less same.symm

/-- What programs build has an end. -/
theorem IsBuilt.ends (built : heap.IsBuilt value) : heap.Ends value := ends_iff.2 built.acyclic

end Writing

section Comparing

theorem allM_isSome {γ : Type} {f : γ → Option Bool} {xs : List γ}
    (each : ∀ x ∈ xs, (f x).isSome) : (xs.allM f).isSome := by
  induction xs with
  | nil => rfl
  | cons x rest ih =>
      obtain ⟨first, others⟩ := List.forall_mem_cons.1 each
      obtain ⟨same, answer⟩ := Option.isSome_iff_exists.1 first
      rw [List.allM, answer]
      cases same with
      | true => exact ih others
      | false => rfl

theorem allM_extends {γ : Type} {f g : γ → Option Bool} {xs : List γ} {same : Bool}
    (each : ∀ x ∈ xs, ∀ y, f x = some y → g x = some y) (answer : xs.allM f = some same) :
    xs.allM g = some same := by
  induction xs with
  | nil => exact answer
  | cons x rest ih =>
      obtain ⟨first, others⟩ := List.forall_mem_cons.1 each
      rw [List.allM] at answer ⊢
      cases found : f x with
      | none =>
          rw [found] at answer
          cases answer
      | some equal =>
          rw [found] at answer
          rw [first equal found]
          cases equal with
          | true => exact ih others answer
          | false => exact answer

/-- Values are compared when all of what they hold is. -/
theorem equalStep_isSome {inner : Value × Value → Option Bool}
    (each : ∀ x y, heap.Holds a x → heap.Holds b y → (inner (x, y)).isSome) :
    (heap.equalStep inner (a, b)).isSome := by
  cases a with
  | list x =>
      cases b with
      | list y =>
          simp only [equalStep]
          split
          · rfl
          · split
            · refine allM_isSome fun pair member => ?_
              have both := List.of_mem_zip member
              exact each pair.1 pair.2 (Array.mem_toList_iff.1 both.1)
                (Array.mem_toList_iff.1 both.2)
            · rfl
      | _ => rfl
  | dict x =>
      cases b with
      | dict y =>
          simp only [equalStep]
          split
          · rfl
          · split
            · refine allM_isSome fun entry member => ?_
              cases found : (heap.entries y).get? entry.1 with
              | none => rfl
              | some other =>
                  have standing := (heap.entries y).inStep.mem_of_get? found
                  exact each entry.2 other ⟨entry, member, rfl⟩ ⟨(entry.1, other), standing, rfl⟩
            · rfl
      | _ => rfl
  | _ => cases b <;> rfl

theorem isMonotone_equalStep (heap : Heap) : IsMonotone heap.equalStep := by
  rintro inner outer extended ⟨a, b⟩ same answer
  cases a with
  | list x =>
      cases b with
      | list y =>
          simp only [equalStep] at answer ⊢
          split at answer
          · rwa [if_pos ‹_›]
          · rw [if_neg ‹_›]
            split at answer
            · rw [if_pos ‹_›]
              exact allM_extends (fun pair _ => extended pair) answer
            · rwa [if_neg ‹_›]
      | _ => exact answer
  | dict x =>
      cases b with
      | dict y =>
          simp only [equalStep] at answer ⊢
          split at answer
          · rwa [if_pos ‹_›]
          · rw [if_neg ‹_›]
            split at answer
            · rw [if_pos ‹_›]
              refine allM_extends (fun entry _ equal test => ?_) answer
              cases found : (heap.entries y).get? entry.1 with
              | none => rwa [found] at test
              | some other =>
                  rw [found] at test
                  exact extended _ _ test
            · rwa [if_neg ‹_›]
      | _ => exact answer
  | _ => cases b <;> exact answer

theorem equalStep_of_not_standing {pair : Value × Value}
    (apart : pair ∉ heap.standing ×ˢ heap.standing) :
    (unroll heap.equalStep 1 pair).isSome := by
  refine equalStep_isSome fun x y left right => absurd ?_ apart
  exact Finset.mem_product.2 ⟨mem_standing_of_holds left, mem_standing_of_holds right⟩

theorem card_pairs_le (heap : Heap) :
    (heap.standing ×ˢ heap.standing).card ≤ heap.cells.size * heap.cells.size :=
  (Finset.card_product _ _).trans_le
    (Nat.mul_le_mul heap.card_standing_le heap.card_standing_le)

/-- Values are compared by comparing what they hold. -/
theorem equal_eq (heap : Heap) (a b : Value) :
    heap.equal a b = heap.equalStep (fun pair => heap.equal pair.1 pair.2) (a, b) :=
  (congrFun (unroll_fixed heap.isMonotone_equalStep (fun _ => equalStep_of_not_standing)
    heap.card_pairs_le) (a, b)).symm

/-- Values are not compared when no number of calls in a row is enough. -/
theorem equal_eq_none_iff : heap.equal a b = none ↔
    ∀ depth, unroll heap.equalStep depth (a, b) = none :=
  unroll_eq_none_iff heap.isMonotone_equalStep (fun _ => equalStep_of_not_standing)
    heap.card_pairs_le (a, b)

/-- Values are compared when there is an end to one of them. -/
theorem equal_isSome (ends : heap.Ends a ∨ heap.Ends b) : (heap.equal a b).isSome := by
  rcases ends with ends | ends
  · induction ends generalizing b with
    | intro a _ ih =>
        rw [equal_eq]
        exact equalStep_isSome fun x y left _ => ih x left
  · induction ends generalizing a with
    | intro b _ ih =>
        rw [equal_eq]
        exact equalStep_isSome fun x y _ right => ih y right

end Comparing

end Heap

end Lehce
