import Mathlib.Data.Option.Defs
import Lehce.Proofs.Number.Equality
import Lehce.Proofs.Value.Endlessness

/-!
# Equal values

Values are compared step by step: scalars by their content, lists index by index and
dictionaries key by key, except that a list or a dictionary is equal to itself without a look
at what it holds. On values in which nothing contains itself there is always an answer, and
equality is symmetric and transitive, and every value that contains no NaN is equal to its
copies. So NaN is the only reason why equality is no equivalence.
-/

namespace Lehce

section Pairing

variable {α β γ : Type} {R : α → β → Prop} {S : β → γ → Prop} {a : Option α} {b : Option β}

/-- What holds of two related options. -/
theorem rel_flip {T : β → α → Prop} (related : Option.Rel R a b)
    (flips : ∀ x ∈ a, ∀ y ∈ b, R x y → T y x) : Option.Rel T b a := by
  cases related with
  | none => exact .none
  | some first => exact .some (flips _ rfl _ rfl first)

theorem rel_trans {T : α → γ → Prop} {c : Option γ} (first : Option.Rel R a b)
    (second : Option.Rel S b c)
    (joins : ∀ x ∈ a, ∀ y ∈ b, ∀ z ∈ c, R x y → S y z → T x z) : Option.Rel T a c := by
  cases first with
  | none =>
      cases second
      exact .none
  | some first =>
      cases second with
      | some second => exact .some (joins _ rfl _ rfl _ rfl first second)

theorem rel_mono {T : α → β → Prop} (related : Option.Rel R a b)
    (implies : ∀ x ∈ a, ∀ y ∈ b, R x y → T x y) : Option.Rel T a b := by
  cases related with
  | none => exact .none
  | some first => exact .some (implies _ rfl _ rfl first)

theorem size_eq_of_rel {xs : Array α} {ys : Array β}
    (related : ∀ index : Nat, Option.Rel R xs[index]? ys[index]?) : xs.size = ys.size := by
  have ends : ∀ index : Nat, xs.size ≤ index ↔ ys.size ≤ index := by
    intro index
    have met := related index
    rw [← Array.getElem?_eq_none_iff, ← Array.getElem?_eq_none_iff]
    revert met
    cases xs[index]? <;> cases ys[index]? <;> simp
  exact le_antisymm ((ends ys.size).2 le_rfl) ((ends xs.size).1 le_rfl)

theorem allM_eq_true_iff {γ : Type} {test : γ → Option Bool} {xs : List γ} :
    xs.allM test = some true ↔ ∀ x ∈ xs, test x = some true := by
  induction xs with
  | nil => simp [List.allM]
  | cons x rest ih =>
      rw [List.allM, List.forall_mem_cons, ← ih]
      rcases test x with _ | _ | _ <;> simp

/-- Lists are related in pairs when they are as long as each other and related index by index. -/
theorem allM_zip_iff {test : α × β → Option Bool} {xs : List α} {ys : List β} :
    (xs.length = ys.length ∧ (xs.zip ys).allM test = some true) ↔
      ∀ index : Nat, Option.Rel (fun x y => test (x, y) = some true) xs[index]? ys[index]? := by
  induction xs generalizing ys with
  | nil =>
      cases ys with
      | nil => exact ⟨fun _ _ => .none, fun _ => ⟨rfl, rfl⟩⟩
      | cons y rest =>
          constructor
          · rintro ⟨same, _⟩
            cases same
          · intro related
            cases related 0
  | cons x rest ih =>
      cases ys with
      | nil =>
          constructor
          · rintro ⟨same, _⟩
            cases same
          · intro related
            cases related 0
      | cons y others =>
          have later := @ih others
          rw [allM_eq_true_iff] at later ⊢
          rw [List.zip_cons_cons, List.forall_mem_cons, and_left_comm, List.length_cons,
            List.length_cons, Nat.add_right_cancel_iff, later]
          constructor
          · rintro ⟨first, related⟩ index
            cases index with
            | zero => exact .some first
            | succ index => exact related index
          · intro related
            refine ⟨?_, fun index => related (index + 1)⟩
            cases related 0 with
            | some first => exact first

/-- Two tests with an answer have the same one when they agree on when it is yes. -/
theorem eq_of_true_iff {first second : Option Bool} (firstEnds : first.isSome)
    (secondEnds : second.isSome) (agree : first = some true ↔ second = some true) :
    first = second := by
  rcases first with _ | _ | _ <;> rcases second with _ | _ | _ <;> simp_all

end Pairing

namespace Dict

variable {α : Type} {left right : Dict α} {R : α → α → Prop}

/-- Of two dictionaries of the same size, one may be looked through only. -/
theorem rel_get?_iff :
    (left.size = right.size ∧ ∀ entry ∈ left.entries, ∃ other,
      right.get? entry.1 = some other ∧ R entry.2 other) ↔
      ∀ key, Option.Rel R (left.get? key) (right.get? key) := by
  constructor
  · rintro ⟨size, entries⟩ key
    cases found : left.get? key with
    | some value =>
        rcases entries _ (left.inStep.mem_of_get? found) with ⟨other, otherFound, related⟩
        rw [otherFound]
        exact .some related
    | none =>
        -- as many keys, all of the one among those of the other: there are no more of them
        have included : left.keys ⊆ right.keys := by
          intro other member
          rw [← left.inStep.keys_entries] at member
          rcases List.mem_map.1 member with ⟨entry, entryMember, rfl⟩
          rcases entries entry entryMember with ⟨value, found, _⟩
          exact (right.inStep.domain _).2 (by rw [found]; rfl)
        have same : left.keys.Perm right.keys :=
          (left.inStep.distinct.subperm included).perm_of_length_le
            (by rw [RawDict.length_keys, RawDict.length_keys, size])
        have absent : ¬(right.get? key).isSome := by
          rw [← right.inStep.domain, ← same.mem_iff, left.inStep.domain, found]
          exact Bool.false_ne_true
        rw [Option.not_isSome_iff_eq_none.1 absent]
        exact .none
  · intro related
    have domain : ∀ key, key ∈ left.keys ↔ key ∈ right.keys := by
      intro key
      rw [left.inStep.domain, right.inStep.domain]
      have met := related key
      revert met
      cases left.get? key <;> cases right.get? key <;> simp
    constructor
    · rw [← RawDict.length_keys, ← RawDict.length_keys]
      exact ((List.perm_ext_iff_of_nodup left.inStep.distinct right.inStep.distinct).2
        domain).length_eq
    · intro entry member
      have met := related entry.1
      rw [RawDict.get?_of_mem member] at met
      cases met' : right.get? entry.1 with
      | none =>
          rw [met'] at met
          cases met
      | some other =>
          rw [met'] at met
          cases met with
          | some first => exact ⟨other, rfl, first⟩

end Dict

namespace Heap

/-- What makes two values equal, given how what they hold is compared. -/
inductive Matches (heap : Heap) (inner : Value → Value → Prop) : Value → Value → Prop where
  | empty {a b : Value} (left : a.orEmpty = .empty) (right : b.orEmpty = .empty) :
      Matches heap inner a b
  | number {x y : Float} (equal : (x == y) = true) : Matches heap inner (.number x) (.number y)
  | bool (x : Bool) : Matches heap inner (.bool x) (.bool x)
  | text (x : String) : Matches heap inner (.text x) (.text x)
  | atom {x y : String} (same : atomId x = atomId y) : Matches heap inner (.atom x) (.atom y)
  | function {x y : FunctionRef} (name : x.name = y.name) (native : x.native = y.native)
      (entry : x.entry = y.entry) : Matches heap inner (.function x) (.function y)
  | sameList (place : Nat) : Matches heap inner (.list place) (.list place)
  | sameDict (place : Nat) : Matches heap inner (.dict place) (.dict place)
  | list {x y : Nat}
      (items : ∀ index : Nat, Option.Rel inner (heap.items x)[index]? (heap.items y)[index]?) :
      Matches heap inner (.list x) (.list y)
  | dict {x y : Nat}
      (values : ∀ key,
        Option.Rel inner ((heap.entries x).get? key) ((heap.entries y).get? key)) :
      Matches heap inner (.dict x) (.dict y)

/-- No number in a value is NaN. -/
def NaNFree (heap : Heap) (value : Value) : Prop :=
  ∀ x, heap.Contains value (.number x) → Number.IsNumber x

/-- What makes a value a copy of another, given which of the values they hold are copies. -/
inductive Copies (heap : Heap) (inner : Value → Value → Prop) : Value → Value → Prop where
  | plain {a b : Value} (scalar : a.place? = none) (same : a.orEmpty = b.orEmpty) :
      Copies heap inner a b
  | list {x y : Nat}
      (items : ∀ index : Nat, Option.Rel inner (heap.items x)[index]? (heap.items y)[index]?) :
      Copies heap inner (.list x) (.list y)
  | dict {x y : Nat}
      (values : ∀ key,
        Option.Rel inner ((heap.entries x).get? key) ((heap.entries y).get? key)) :
      Copies heap inner (.dict x) (.dict y)

/-- Values with the same structure: lists of copies, dictionaries with copies under the same
keys, whatever their order, and scalars that are the same. -/
def IsCopy (heap : Heap) (a b : Value) : Prop :=
  ∃ related : Value → Value → Prop, (∀ x y, related x y → heap.Copies related x y) ∧ related a b

variable {heap : Heap} {a b c : Value}

section Items

variable {x : Nat}

theorem holds_of_getElem? {index : Nat} {value : Value}
    (found : value ∈ (heap.items x)[index]?) : heap.Holds (.list x) value :=
  Array.mem_of_getElem? found

theorem holds_of_get? {key : String} {value : Value}
    (found : value ∈ (heap.entries x).get? key) : heap.Holds (.dict x) value :=
  ⟨(key, value), (heap.entries x).inStep.mem_of_get? found, rfl⟩

end Items

theorem Matches.mono {R S : Value → Value → Prop} (matched : heap.Matches R a b)
    (implies : ∀ x y, heap.Holds a x → heap.Holds b y → R x y → S x y) : heap.Matches S a b := by
  cases matched with
  | empty left right => exact .empty left right
  | number equal => exact .number equal
  | bool x => exact .bool x
  | text x => exact .text x
  | atom same => exact .atom same
  | function name native entry => exact .function name native entry
  | sameList place => exact .sameList place
  | sameDict place => exact .sameDict place
  | list items =>
      exact .list fun index => rel_mono (items index) fun v member w other =>
        implies v w (holds_of_getElem? member) (holds_of_getElem? other)
  | dict values =>
      exact .dict fun key => rel_mono (values key) fun v member w other =>
        implies v w (holds_of_get? member) (holds_of_get? other)

section Steps

variable {inner : Value × Value → Option Bool} {x y : Nat}

theorem equalStep_list_iff : heap.equalStep inner (.list x, .list y) = some true ↔
    x = y ∨ ∀ index : Nat, Option.Rel (fun v w => inner (v, w) = some true)
      (heap.items x)[index]? (heap.items y)[index]? := by
  have pairs := @allM_zip_iff _ _ inner (heap.items x).toList (heap.items y).toList
  simp only [Array.getElem?_toList] at pairs
  rw [equalStep, ← pairs]
  by_cases same : x = y
  · simp [same]
  · simp only [same, if_false, false_or]
    split
    · rename_i sizes
      simp only [sizes, true_and]
    · rename_i sizes
      simp only [sizes, false_and, reduceCtorEq, Option.some.injEq]

theorem equalStep_dict_iff : heap.equalStep inner (.dict x, .dict y) = some true ↔
    x = y ∨ ∀ key, Option.Rel (fun v w => inner (v, w) = some true)
      ((heap.entries x).get? key) ((heap.entries y).get? key) := by
  rw [← Dict.rel_get?_iff, equalStep]
  by_cases same : x = y
  · simp [same]
  · by_cases sizes : (heap.entries x).size = (heap.entries y).size
    · simp only [same, sizes, if_false, if_true, false_or, true_and, allM_eq_true_iff]
      refine forall₂_congr fun entry member => ?_
      cases (heap.entries y).get? entry.1 <;> simp
    · simp [same, sizes]

theorem matches_of_equalStep (equal : heap.equalStep inner (a, b) = some true) :
    heap.Matches (fun v w => inner (v, w) = some true) a b := by
  cases a with
  | list x =>
      cases b with
      | list y =>
          rcases equalStep_list_iff.1 equal with rfl | items
          · exact .sameList x
          · exact .list items
      | _ => simp [equalStep] at equal
  | dict x =>
      cases b with
      | dict y =>
          rcases equalStep_dict_iff.1 equal with rfl | values
          · exact .sameDict x
          · exact .dict values
      | _ => simp [equalStep] at equal
  | number x =>
      cases b with
      | number y => exact .number (Option.some.inj equal)
      | _ => simp [equalStep] at equal
  | bool x =>
      cases b with
      | bool y =>
          rw [equalStep, Option.some.injEq, beq_iff_eq] at equal
          exact equal ▸ .bool x
      | _ => simp [equalStep] at equal
  | text x =>
      cases b with
      | text y =>
          rw [equalStep, Option.some.injEq, beq_iff_eq] at equal
          exact equal ▸ .text x
      | _ => simp [equalStep] at equal
  | atom x =>
      cases b with
      | atom y => exact .atom (by simpa [equalStep] using equal)
      | _ => simp [equalStep] at equal
  | function x =>
      cases b with
      | function y =>
          simp only [equalStep, Option.some.injEq, Bool.and_eq_true, beq_iff_eq] at equal
          exact .function equal.1.1 equal.1.2 equal.2
      | _ => simp [equalStep] at equal
  | absent | empty =>
      cases b with
      | absent | empty => exact .empty rfl rfl
      | _ => simp [equalStep] at equal

theorem Matches.equalStep (matched : heap.Matches (fun v w => inner (v, w) = some true) a b) :
    heap.equalStep inner (a, b) = some true := by
  cases matched with
  | empty left right =>
      cases a <;> cases left <;> cases b <;> cases right <;> rfl
  | number equal => exact congrArg some equal
  | bool x => simp [Heap.equalStep]
  | text x => simp [Heap.equalStep]
  | atom same => simpa [Heap.equalStep] using same
  | function name native entry => simp [Heap.equalStep, name, native, entry]
  | sameList place => exact equalStep_list_iff.2 (.inl rfl)
  | sameDict place => exact equalStep_dict_iff.2 (.inl rfl)
  | list items => exact equalStep_list_iff.2 (.inr items)
  | dict values => exact equalStep_dict_iff.2 (.inr values)

/-- What makes a comparison answer yes. -/
theorem equalStep_iff : heap.equalStep inner (a, b) = some true ↔
    heap.Matches (fun v w => inner (v, w) = some true) a b :=
  ⟨matches_of_equalStep, Matches.equalStep⟩

end Steps

/-- What makes two values equal. -/
theorem equal_iff : heap.equal a b = some true ↔ heap.Matches (heap.equal · · = some true) a b := by
  rw [equal_eq, equalStep_iff]

theorem IsBuilt.equal_isSome (built : heap.IsBuilt a) (b : Value) : (heap.equal a b).isSome :=
  Heap.equal_isSome (.inl built.ends)

theorem equal_orEmpty (heap : Heap) (a b : Value) :
    heap.equal a.orEmpty b.orEmpty = heap.equal a b := by
  rw [equal_eq, equal_eq heap a b]
  cases a <;> cases b <;> rfl

theorem equal_symm (builtA : heap.IsBuilt a) (builtB : heap.IsBuilt b)
    (equal : heap.equal a b = some true) : heap.equal b a = some true := by
  induction builtA using IsBuilt.induction generalizing b with
  | step a builtA ih =>
      rw [equal_iff] at equal
      rw [equal_iff]
      cases equal with
      | empty left right => exact .empty right left
      | number equal => exact .number (Number.beq_symm equal)
      | bool x => exact .bool x
      | text x => exact .text x
      | atom same => exact .atom same.symm
      | function name native entry => exact .function name.symm native.symm entry.symm
      | sameList place => exact .sameList place
      | sameDict place => exact .sameDict place
      | list items =>
          exact .list fun index => rel_flip (items index) fun x left y right equal =>
            ih x (holds_of_getElem? left) (builtB.of_holds (holds_of_getElem? right)) equal
      | dict values =>
          exact .dict fun key => rel_flip (values key) fun x left y right equal =>
            ih x (holds_of_get? left) (builtB.of_holds (holds_of_get? right)) equal

theorem equal_comm (builtA : heap.IsBuilt a) (builtB : heap.IsBuilt b) :
    heap.equal a b = heap.equal b a :=
  eq_of_true_iff (builtA.equal_isSome b) (builtB.equal_isSome a)
    ⟨equal_symm builtA builtB, equal_symm builtB builtA⟩

theorem equal_trans (builtA : heap.IsBuilt a) (builtB : heap.IsBuilt b) (builtC : heap.IsBuilt c)
    (first : heap.equal a b = some true) (second : heap.equal b c = some true) :
    heap.equal a c = some true := by
  induction builtA using IsBuilt.induction generalizing b c with
  | step a builtA ih =>
      rw [equal_iff] at first
      rw [equal_iff] at second
      rw [equal_iff]
      cases first with
      | empty left right =>
          cases second with
          | empty _ last => exact .empty left last
          | _ => cases right
      | number equal =>
          cases second with
          | empty left => cases left
          | number later => exact .number (Number.beq_trans equal later)
      | bool x =>
          cases second with
          | empty left => cases left
          | bool => exact .bool x
      | text x =>
          cases second with
          | empty left => cases left
          | text => exact .text x
      | atom same =>
          cases second with
          | empty left => cases left
          | atom later => exact .atom (same.trans later)
      | function name native entry =>
          cases second with
          | empty left => cases left
          | function later laterNative laterEntry =>
              exact .function (name.trans later) (native.trans laterNative)
                (entry.trans laterEntry)
      | sameList place | sameDict place => exact second
      | list items =>
          cases second with
          | empty left => cases left
          | sameList => exact .list items
          | list later =>
              exact .list fun index => rel_trans (items index) (later index)
                fun x left y middle z right =>
                  ih x (holds_of_getElem? left) (builtB.of_holds (holds_of_getElem? middle))
                    (builtC.of_holds (holds_of_getElem? right))
      | dict values =>
          cases second with
          | empty left => cases left
          | sameDict => exact .dict values
          | dict later =>
              exact .dict fun key => rel_trans (values key) (later key)
                fun x left y middle z right =>
                  ih x (holds_of_get? left) (builtB.of_holds (holds_of_get? middle))
                    (builtC.of_holds (holds_of_get? right))

theorem NaNFree.of_holds {inner : Value} (free : heap.NaNFree a) (holds : heap.Holds a inner) :
    heap.NaNFree inner :=
  fun x contains => free x (.head holds contains)

/-- A scalar other than NaN is equal to itself. -/
theorem matches_of_scalar {inner : Value → Value → Prop} (scalar : a.place? = none)
    (free : heap.NaNFree a) (same : a.orEmpty = b.orEmpty) : heap.Matches inner a b := by
  cases a with
  | absent | empty => exact .empty rfl same.symm
  | list place | dict place => cases scalar
  | number x =>
      cases b <;> cases same
      exact .number (free x .refl)
  | bool x =>
      cases b <;> cases same
      exact .bool x
  | text x =>
      cases b <;> cases same
      exact .text x
  | atom x =>
      cases b <;> cases same
      exact .atom rfl
  | function ref =>
      cases b <;> cases same
      exact .function rfl rfl rfl

theorem equal_self (builtA : heap.IsBuilt a) (identical : a.place?.isSome ∨ heap.NaNFree a) :
    heap.equal a a = some true := by
  rw [equal_iff]
  cases named : a.place? with
  | none =>
      rw [named] at identical
      exact matches_of_scalar named (identical.resolve_left Bool.false_ne_true) rfl
  | some place =>
      cases a with
      | list place => exact .sameList place
      | dict place => exact .sameDict place
      | _ => cases named

theorem equal_of_isCopy (builtA : heap.IsBuilt a) (builtB : heap.IsBuilt b)
    (free : heap.NaNFree a) (copy : heap.IsCopy a b) : heap.equal a b = some true := by
  rcases copy with ⟨related, copies, pair⟩
  induction builtA using IsBuilt.induction generalizing b with
  | step a builtA ih =>
      rw [equal_iff]
      cases copies a b pair with
      | plain scalar same => exact matches_of_scalar scalar free same
      | list items =>
          exact .list fun index => rel_mono (items index) fun x left y right pair =>
            ih x (holds_of_getElem? left) (builtB.of_holds (holds_of_getElem? right))
              (free.of_holds (holds_of_getElem? left)) pair
      | dict values =>
          exact .dict fun key => rel_mono (values key) fun x left y right pair =>
            ih x (holds_of_get? left) (builtB.of_holds (holds_of_get? right))
              (free.of_holds (holds_of_get? left)) pair

/-- Dictionaries with the same values under the same keys are copies of each other. -/
theorem isCopy_of_get?_eq {x y : Nat}
    (same : ∀ key, (heap.entries x).get? key = (heap.entries y).get? key) :
    heap.IsCopy (.dict x) (.dict y) := by
  have refl : ∀ value : Option Value, Option.Rel
      (fun v w => v = w ∨ v = .dict x ∧ w = .dict y) value value := by
    intro value
    cases value with
    | none => exact .none
    | some value => exact .some (.inl rfl)
  refine ⟨fun v w => v = w ∨ v = .dict x ∧ w = .dict y, ?_, .inr ⟨rfl, rfl⟩⟩
  rintro v w (rfl | ⟨rfl, rfl⟩)
  · cases v with
    | list place => exact .list fun index => refl _
    | dict place => exact .dict fun key => refl _
    | _ => exact .plain rfl rfl
  · refine .dict fun key => ?_
    rw [same key]
    exact refl _

/-- Two dictionaries with the same values under the same keys compare alike with another value,
and with themselves when they contain no NaN. -/
theorem equal_of_get?_eq {x y : Nat} (builtX : heap.IsBuilt (.dict x))
    (builtY : heap.IsBuilt (.dict y)) (builtC : heap.IsBuilt c)
    (same : ∀ key, (heap.entries x).get? key = (heap.entries y).get? key)
    (apart : c ≠ .dict x ∨ heap.NaNFree (.dict x)) (equal : heap.equal (.dict x) c = some true) :
    heap.equal (.dict y) c = some true := by
  rcases apart with apart | free
  · rw [equal_iff] at equal
    rw [equal_iff]
    cases equal with
    | empty left => cases left
    | sameDict => exact absurd rfl apart
    | dict values => exact .dict fun key => same key ▸ values key
  · have copy := equal_of_isCopy builtX builtY free (isCopy_of_get?_eq same)
    exact equal_trans builtY builtX builtC (equal_symm builtX builtY copy) equal

theorem NaNFree.of_get?_eq {x y : Nat} (free : heap.NaNFree (.dict x))
    (same : ∀ key, (heap.entries x).get? key = (heap.entries y).get? key) :
    heap.NaNFree (.dict y) := by
  intro number contains
  rcases Relation.ReflTransGen.cases_head contains with equal | ⟨inner, holds, later⟩
  · cases equal
  · rcases holds with ⟨entry, member, rfl⟩
    have found := (same entry.1).trans (RawDict.get?_of_mem member)
    exact free number (.head (holds_of_get? found) later)

theorem Matches.kind_eq {inner : Value → Value → Prop} (matched : heap.Matches inner a b) :
    a.kind = b.kind := by
  cases matched with
  | empty left right => cases a <;> cases left <;> cases b <;> cases right <;> rfl
  | _ => rfl

theorem truthy_eq_of_equal (builtA : heap.IsBuilt a) (builtB : heap.IsBuilt b)
    (equal : heap.equal a b = some true) : heap.truthy a = heap.truthy b := by
  rw [equal_iff] at equal
  cases equal with
  | empty left right => cases a <;> cases left <;> cases b <;> cases right <;> rfl
  | number equal => exact Number.bne_zero_congr equal
  | list items =>
      have sizes := size_eq_of_rel items
      rw [truthy, truthy, sizes]
  | dict values =>
      have sizes := (Dict.rel_get?_iff.2 values).1
      rw [truthy, truthy, sizes]
  | _ => rfl

/-- What equality of a program's values obeys. -/
structure EqualityLaws (heap : Heap) (a b c : Value) : Prop where
  answers : (heap.equal a b).isSome
  absent : heap.equal a.orEmpty b.orEmpty = heap.equal a b
  symmetric : heap.equal a b = heap.equal b a
  transitive : heap.equal a b = some true → heap.equal b c = some true → heap.equal a c = some true
  reflexive : a.place?.isSome ∨ heap.NaNFree a → heap.equal a a = some true
  copies : heap.NaNFree a → heap.IsCopy a b → heap.equal a b = some true
  unordered : ∀ x y, a = .dict x → b = .dict y →
    (∀ key, (heap.entries x).get? key = (heap.entries y).get? key) →
    (c ≠ a ∧ c ≠ b) ∨ heap.NaNFree a → heap.equal a c = heap.equal b c
  alike : heap.equal a b = some true → a.kind = b.kind ∧ heap.truthy a = heap.truthy b

/-- Equality of a program's values is an equivalence but for NaN. -/
theorem equal_laws (builtA : heap.IsBuilt a) (builtB : heap.IsBuilt b) (builtC : heap.IsBuilt c) :
    heap.EqualityLaws a b c where
  answers := builtA.equal_isSome b
  absent := equal_orEmpty heap a b
  symmetric := equal_comm builtA builtB
  transitive := equal_trans builtA builtB builtC
  reflexive := equal_self builtA
  copies := equal_of_isCopy builtA builtB
  unordered := by
    rintro x y rfl rfl same apart
    have apartX : c ≠ .dict x ∨ heap.NaNFree (.dict x) := apart.imp_left (·.1)
    have apartY : c ≠ .dict y ∨ heap.NaNFree (.dict y) :=
      apart.imp (·.2) fun free => free.of_get?_eq same
    exact eq_of_true_iff (builtA.equal_isSome c) (builtB.equal_isSome c)
      ⟨equal_of_get?_eq builtA builtB builtC same apartX,
        equal_of_get?_eq builtB builtA builtC (fun key => (same key).symm) apartY⟩
  alike equal := ⟨(equal_iff.1 equal).kind_eq,
    truthy_eq_of_equal builtA builtB equal⟩

/-- A heap with dictionaries that share lists and got their keys in different orders. -/
def sharingHeap : Heap where
  cells := #[.list #[.number 1, .text "a"], .list #[.number 1, .text "a"],
    .dict (Dict.after [.set "x" (.list 0), .set "y" (.list 0)]),
    .dict (Dict.after [.set "z" .absent, .set "y" (.list 1), .set "x" (.list 1), .erase "z"]),
    .dict (Dict.after [.set "y" (.list 0), .set "x" (.list 1)])]

/-- Values whose lists and dictionaries stand on that heap. -/
def IsShared : Value → Prop
  | .list place => place < 2
  | .dict place => 2 ≤ place ∧ place < 5
  | _ => True

theorem isBuilt_sharingHeap (place : Nat) (lower : 2 ≤ place) (upper : place < 5) :
    sharingHeap.IsBuilt (.dict place) := by
  apply @isBuilt_of_ascending sharingHeap (.dict place) IsShared
  · intro place inside
    have upper : place < 2 := inside
    interval_cases place
    · exact ⟨_, rfl⟩
    · exact ⟨_, rfl⟩
  · rintro place ⟨lower, upper⟩
    interval_cases place
    · exact ⟨_, rfl⟩
    · exact ⟨_, rfl⟩
    · exact ⟨_, rfl⟩
  · intro container inner sorted holds
    cases container with
    | list place =>
        have upper : place < 2 := sorted
        interval_cases place <;>
        · change inner ∈ #[Value.number 1, Value.text "a"] at holds
          simp only [List.mem_toArray, List.mem_cons, List.not_mem_nil, or_false] at holds
          rcases holds with rfl | rfl <;> simp [Value.place?, IsShared]
    | dict place =>
        rcases sorted with ⟨lower, upper⟩
        have written : ∃ key first second other, (sharingHeap.entries place).entries =
            [(key, .list first), (other, .list second)] ∧ first < 2 ∧ second < 2 := by
          interval_cases place
          · exact ⟨"x", 0, 0, "y", RawDict.entries_after _, by decide, by decide⟩
          · exact ⟨"y", 1, 1, "x", RawDict.entries_after _, by decide, by decide⟩
          · exact ⟨"y", 0, 1, "x", RawDict.entries_after _, by decide, by decide⟩
        rcases written with ⟨key, first, second, other, entries, firstLow, secondLow⟩
        rcases holds with ⟨entry, member, rfl⟩
        rw [entries] at member
        simp only [List.mem_cons, List.not_mem_nil, or_false] at member
        rcases member with rfl | rfl <;> simp [Value.place?, IsShared] <;> omega
    | _ => cases holds
  · exact ⟨lower, upper⟩

/-- Dictionaries that share lists, set in different orders. -/
theorem equal_laws_sharing :
    sharingHeap.IsBuilt (.dict 2) ∧ sharingHeap.IsBuilt (.dict 3) ∧
      sharingHeap.IsBuilt (.dict 4) ∧ sharingHeap.equal (.dict 2) (.dict 3) = some true ∧
      sharingHeap.EqualityLaws (.dict 2) (.dict 3) (.dict 4) :=
  have first := isBuilt_sharingHeap 2 (by decide) (by decide)
  have second := isBuilt_sharingHeap 3 (by decide) (by decide)
  have third := isBuilt_sharingHeap 4 (by decide) (by decide)
  ⟨first, second, third, by decide +kernel, equal_laws first second third⟩

end Heap

end Lehce
