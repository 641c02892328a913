import Lehce.Proofs.Code.WellFormed
import Lehce.Proofs.Number.Exact

/-!
# Numbers among constants

Constants are pooled under the bits of a number, and both zeros are pooled as one. So a number
that stands in a scope has a slot in which there is the number itself, except that for every
zero there is the zero that comes first in the scope.
-/

namespace Lehce

/-- The number that a datum is. -/
def Datum.number? : Datum → Option Float
  | .number value => some value
  | _ => none

/-- The number that a node is. -/
def Node.number? : Node → Option Float
  | .literal _ value => value.number?
  | _ => none

/-- The numbers among some nodes. -/
def Node.numbers (nodes : List Node) : List Float := nodes.filterMap Node.number?

/-- Zeros are numbers. -/
theorem Number.isNumber_of_zero {value : Float} (zero : (value == 0) = true) :
    IsNumber value := by
  by_cases negative : value = -0
  · rw [negative, IsNumber]
    decide +kernel
  · rw [eq_zero_of_beq zero negative, IsNumber]
    decide +kernel

namespace Code

/-- What a number in a scope means: itself, but all zeros mean the one that comes first. -/
def ScopeText.pooled (text : ScopeText) (value : Float) : Float :=
  if value == 0 then ((Node.numbers text.nodes).find? (· == 0)).getD value else value

/-- The number that an instruction loads from some constants. -/
def Instruction.number? (constants : Array Datum) : Instruction → Option Float
  | .load slot => constants[slot.toNat]?.bind Datum.number?
  | _ => none

section Pooling

variable {functions : Functions} {natives : Resolver}

theorem ofDatum?_number {value : Float} (known : Number.IsNumber value) :
    ConstantKey.ofDatum? (.number value) =
      some (.number (if value == 0 then 0 else value.toBits)) := by
  have self : (value == value) = true := known
  simp [ConstantKey.ofDatum?, self]

/-- Numbers of one key are the same, or both are zero. -/
theorem eq_or_zero_of_key {first second : Float} {key : ConstantKey}
    (firstKey : ConstantKey.ofDatum? (.number first) = some key)
    (secondKey : ConstantKey.ofDatum? (.number second) = some key) :
    (first == 0) = (second == 0) ∧ (first = second ∨ (first == 0) = true) := by
  have zero : ∀ value : Float, value.toBits = 0 → (value == 0) = true := by
    intro value same
    have isZero : value = 0 := Float.toBits_inj.1 (same.trans (by decide +kernel))
    rw [isZero]
    decide +kernel
  have firstZero := zero first
  have secondZero := zero second
  simp only [ConstantKey.ofDatum?] at firstKey secondKey
  split at firstKey
  · split at secondKey
    · have same := (Option.some.inj firstKey).trans (Option.some.inj secondKey).symm
      rw [ConstantKey.number.injEq] at same
      cases isZero : first == 0 <;> cases otherZero : second == 0 <;>
        simp_all [Float.toBits_inj]
    · cases secondKey
  · cases firstKey

/-- A name that is resolved has the key of a function. -/
theorem function_of_resolveNative {name : String} {found : ConstantKey × FunctionRef}
    (resolved : resolveNative natives name = some found) :
    ∃ full native, found.1 = .function full native := by
  rcases Option.map_eq_some_iff.1 resolved with ⟨full, _, rfl⟩
  exact ⟨_, _, rfl⟩

theorem function_of_resolveFunction {name : String} {found : ConstantKey × FunctionRef}
    (resolved : resolveFunction functions natives name = some found) :
    ∃ full native, found.1 = .function full native := by
  unfold resolveFunction at resolved
  split at resolved
  · cases resolved
    exact ⟨_, _, rfl⟩
  · exact function_of_resolveNative resolved

/-- The constant of a node is the number that the node is, or it is no number. -/
theorem number_of_mem_nodeConstants {bound : String → Bool} {node : Node} {key : ConstantKey}
    {value : Datum} (member : (key, value) ∈ nodeConstants functions natives bound node) :
    (∃ number, node.number? = some number ∧ value = .number number ∧
      ConstantKey.ofDatum? (.number number) = some key) ∨
    (node.number? = none ∧ (∀ bits, key ≠ .number bits) ∧ ∀ number, value ≠ .number number) := by
  cases node with
  | literal position content =>
      simp only [nodeConstants, List.mem_map, Option.mem_toList, Prod.mk.injEq] at member
      rcases member with ⟨found, keyed, rfl, rfl⟩
      cases content with
      | number number => exact .inl ⟨number, rfl, rfl, keyed⟩
      | empty | bool | text | atom =>
          cases keyed
          exact .inr ⟨rfl, by simp, by simp⟩
      | absent | list | dict | function => cases keyed
  | nothing position =>
      simp only [nodeConstants, List.mem_singleton, Prod.mk.injEq] at member
      rcases member with ⟨rfl, rfl⟩
      exact .inr ⟨rfl, by simp, by simp⟩
  | dict position entries =>
      simp only [nodeConstants, List.mem_map, Prod.mk.injEq] at member
      rcases member with ⟨entry, _, rfl, rfl⟩
      exact .inr ⟨rfl, by simp, by simp⟩
  | symbol position name =>
      simp only [nodeConstants] at member
      split at member
      · cases member
      · simp only [List.mem_map, Option.mem_toList, Prod.mk.injEq] at member
        rcases member with ⟨found, resolved, rfl, rfl⟩
        rcases function_of_resolveFunction resolved with ⟨full, native, same⟩
        exact .inr ⟨rfl, by simp [same], by simp⟩
  | path position parts =>
      simp only [nodeConstants, List.mem_map, Option.mem_toList, Prod.mk.injEq] at member
      rcases member with ⟨found, resolved, rfl, rfl⟩
      rcases function_of_resolveNative resolved with ⟨full, native, same⟩
      exact .inr ⟨rfl, by simp [same], by simp⟩
  | _ => simp [nodeConstants] at member

theorem lookup_nodeConstants (bound : String → Bool) (bits : UInt64) (node : Node) :
    (nodeConstants functions natives bound node).lookup (.number bits) =
      (node.number?.filter fun value =>
        ConstantKey.ofDatum? (.number value) == some (.number bits)).map Datum.number := by
  cases isNumber : node.number? with
  | none =>
      rw [Option.filter_none, Option.map_none, List.lookup_eq_none_iff]
      intro constant member
      rcases number_of_mem_nodeConstants member with ⟨number, some, _⟩ | ⟨_, other, _⟩
      · rw [some] at isNumber
        cases isNumber
      · simpa using (other bits).symm
  | some value =>
      have literal : nodeConstants functions natives bound node =
          (ConstantKey.ofDatum? (.number value)).toList.map fun key => (key, .number value) := by
        cases node with
        | literal position content =>
            cases content with
            | number number =>
                cases isNumber
                rfl
            | _ => cases isNumber
        | _ => cases isNumber
      rw [literal]
      cases keyed : ConstantKey.ofDatum? (.number value) with
      | none => simp [Option.filter, keyed]
      | some key =>
          by_cases same : key = .number bits
          · simp [Option.filter, keyed, same]
          · have other : (ConstantKey.number bits == key) = false := by simpa using Ne.symm same
            simp [Option.filter, keyed, same, List.lookup, other]

/-- Under the key of a number a scope has the first number of that key. -/
theorem lookup_flatMap_nodeConstants (bound : String → Bool) (bits : UInt64) (nodes : List Node) :
    (nodes.flatMap (nodeConstants functions natives bound)).lookup (.number bits) =
      ((Node.numbers nodes).find? fun value =>
        ConstantKey.ofDatum? (.number value) == some (.number bits)).map Datum.number := by
  induction nodes with
  | nil => rfl
  | cons node rest ih =>
      rw [List.flatMap_cons, List.lookup_append, lookup_nodeConstants, ih]
      cases isNumber : node.number? with
      | none => simp [Node.numbers, isNumber]
      | some value =>
          by_cases keyed : ConstantKey.ofDatum? (.number value) = some (.number bits)
          · simp [Node.numbers, isNumber, Option.filter, keyed]
          · simp [Node.numbers, isNumber, Option.filter, keyed]

variable {text : ScopeText} {scope : Scope}

/-- The first number that has the key of a number is what that number means. -/
theorem find?_key {value : Float} (written : value ∈ Node.numbers text.nodes) {key : ConstantKey}
    (keyed : ConstantKey.ofDatum? (.number value) = some key) :
    (Node.numbers text.nodes).find? (fun other =>
      ConstantKey.ofDatum? (.number other) == some key) = some (text.pooled value) := by
  have isSome : ((Node.numbers text.nodes).find? fun other =>
      ConstantKey.ofDatum? (.number other) == some key).isSome := by
    rw [List.find?_isSome]
    exact ⟨value, written, by simp [keyed]⟩
  rcases Option.isSome_iff_exists.1 isSome with ⟨first, found⟩
  have firstKey : ConstantKey.ofDatum? (.number first) = some key := by
    simpa using List.find?_some found
  rcases eq_or_zero_of_key keyed firstKey with ⟨zeros, same⟩
  rw [found, ScopeText.pooled]
  cases isZero : value == 0 with
  | false =>
      rw [isZero] at same
      simpa using (same.resolve_right Bool.false_ne_true).symm
  | true =>
      -- Here the key is that of zero, and so are the keys of all zeros.
      have keys : ∀ other : Float,
          (ConstantKey.ofDatum? (.number other) == some key) = (other == 0) := by
        intro other
        rw [Bool.eq_iff_iff, beq_iff_eq]
        constructor
        · intro otherKey
          rw [← (eq_or_zero_of_key keyed otherKey).1, isZero]
        · intro otherZero
          have zero : ∀ {number : Float}, (number == 0) = true →
              ConstantKey.ofDatum? (.number number) = some (.number 0) := by
            intro number numberZero
            rw [ofDatum?_number (Number.isNumber_of_zero numberZero), numberZero, if_pos rfl]
          rw [zero otherZero, ← keyed, zero isZero]
      simp only [keys] at found
      rw [found]
      rfl

/-- A number that stands in a scope has a slot, in which there is what it means. -/
theorem constant_number (serves : scope.Serves functions natives text.params text.body)
    {value : Float} (known : Number.IsNumber value) (written : value ∈ Node.numbers text.nodes) :
    ∃ key slot, ConstantKey.ofDatum? (.number value) = some key ∧
      scope.constantSlot? key = some slot ∧
      scope.constants[slot]? = some (.number (text.pooled value)) := by
  have keyed := ofDatum?_number known
  generalize (if value == 0 then 0 else value.toBits) = bits at keyed
  have found := @lookup_flatMap_nodeConstants functions natives
    (isVariable text.params text.body) bits text.nodes
  rw [find?_key written keyed, Option.map_some] at found
  have listed : ConstantKey.number bits ∈
      (scopeConstants functions natives text.params text.body).map (·.1) := by
    rcases List.lookup_eq_some_iff.1 found with ⟨front, back, split, _⟩
    rw [scopeConstants]
    refine List.mem_map.2 ⟨(.number bits, .number (text.pooled value)), ?_, rfl⟩
    rw [← ScopeText.nodes, split]
    exact List.mem_append_right _ List.mem_cons_self
  rcases serves.holdsConstants.slot listed with ⟨slot, slotFound, _, content⟩
  exact ⟨_, slot, keyed, slotFound, content.trans found⟩

/-- A constant whose key is not that of a number is no number. -/
theorem constant_other (serves : scope.Serves functions natives text.params text.body)
    {key : ConstantKey} (other : ∀ bits, key ≠ .number bits) {slot : Nat}
    (found : scope.constantSlot? key = some slot) :
    scope.constants[slot]?.bind Datum.number? = none := by
  have listed := (serves.holdsConstants.slot_iff key).1 (by rw [found]; rfl)
  rcases serves.holdsConstants.slot listed with ⟨same, sameFound, _, content⟩
  rw [found] at sameFound
  cases sameFound
  rw [content]
  cases looked : (scopeConstants functions natives text.params text.body).lookup key with
  | none => rfl
  | some value =>
      rcases List.lookup_eq_some_iff.1 looked with ⟨front, back, split, _⟩
      have member : (key, value) ∈ scopeConstants functions natives text.params text.body := by
        rw [split]
        simp
      rcases List.mem_flatMap.1 member with ⟨node, _, inNode⟩
      rcases number_of_mem_nodeConstants inNode with ⟨_, _, _, keyed⟩ | ⟨_, _, never⟩
      · simp only [ConstantKey.ofDatum?] at keyed
        split at keyed
        · exact (other _ (Option.some.inj keyed).symm).elim
        · cases keyed
      · cases value with
        | number number => exact (never number rfl).elim
        | _ => rfl

end Pooling

end Code

end Lehce
