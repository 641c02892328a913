import Lehce.Proofs.Number.Exact

/-!
# Equal numbers

Two numbers are equal when they are the same and numbers at all, or when both are zeros,
whatever their signs. So equality is symmetric and transitive, and equal numbers are zero
together.
-/

namespace Lehce.Number

open Float.Model
open Float.Model.UnpackedFloat

/-- A zero of either sign. -/
def IsZero (x : Float) : Prop := x = 0 ∨ x = -0

/-- What two unpacked numbers are when neither is less. -/
theorem compare_eq_some_eq {a b : UnpackedFloat} : a.compare b = some .eq ↔
    (a = b ∧ a ≠ .notANumber) ∨ ((∃ sign, a = .zero sign) ∧ ∃ sign, b = .zero sign) := by
  constructor
  · intro equal
    cases a with
    | notANumber => simp [UnpackedFloat.compare] at equal
    | infinity sign =>
        cases b with
        | infinity other => cases sign <;> cases other <;> simp_all [UnpackedFloat.compare]
        | _ => cases sign <;> simp [UnpackedFloat.compare] at equal
    | zero sign =>
        cases b with
        | zero other => exact .inr ⟨⟨sign, rfl⟩, ⟨other, rfl⟩⟩
        | infinity other => cases other <;> simp [UnpackedFloat.compare] at equal
        | notANumber => simp [UnpackedFloat.compare] at equal
        | finite other => cases other <;> simp [UnpackedFloat.compare] at equal
    | finite sign mantissa exponent positive =>
        cases b with
        | finite other otherMantissa otherExponent otherPositive =>
            left
            cases sign <;> cases other <;>
              simp_all [UnpackedFloat.compare, Ordering.then_eq_eq]
        | infinity other => cases sign <;> cases other <;> simp [UnpackedFloat.compare] at equal
        | notANumber => cases sign <;> simp [UnpackedFloat.compare] at equal
        | zero other => cases sign <;> simp [UnpackedFloat.compare] at equal
  · rintro (⟨rfl, proper⟩ | ⟨⟨sign, rfl⟩, ⟨other, rfl⟩⟩)
    · exact compare_unpacked_self proper
    · rfl

theorem isZero_iff {x : Float} : IsZero x ↔ ∃ sign, x.toModel.unpack = .zero sign := by
  have positive : (0 : Float).toModel.unpack = .zero .positive := rfl
  have negative : (-0 : Float).toModel.unpack = .zero .negative := rfl
  constructor
  · rintro (rfl | rfl)
    · exact ⟨_, positive⟩
    · exact ⟨_, negative⟩
  · rintro ⟨sign, unpacked⟩
    cases sign with
    | positive => exact .inl (unpack_inj (unpacked.trans positive.symm))
    | negative => exact .inr (unpack_inj (unpacked.trans negative.symm))

theorem beq_iff {x y : Float} :
    (x == y) = true ↔ (x = y ∧ IsNumber x) ∨ (IsZero x ∧ IsZero y) := by
  have compared : (x == y) = (x.toModel.unpack.compare y.toModel.unpack == some .eq) := rfl
  rw [compared, beq_iff_eq, compare_eq_some_eq, ← isNumber_iff, ← isZero_iff, ← isZero_iff]
  refine or_congr_left (and_congr_left fun _ => ⟨unpack_inj, ?_⟩)
  rintro rfl
  rfl

theorem beq_symm {x y : Float} (equal : (x == y) = true) : (y == x) = true := by
  rcases beq_iff.1 equal with ⟨rfl, proper⟩ | ⟨left, right⟩
  · exact proper
  · exact beq_iff.2 (.inr ⟨right, left⟩)

theorem beq_trans {x y z : Float} (first : (x == y) = true) (second : (y == z) = true) :
    (x == z) = true := by
  rcases beq_iff.1 first with ⟨rfl, _⟩ | ⟨left, _⟩
  · exact second
  · rcases beq_iff.1 second with ⟨rfl, _⟩ | ⟨_, right⟩
    · exact first
    · exact beq_iff.2 (.inr ⟨left, right⟩)

/-- Equal numbers are zero together. -/
theorem bne_zero_congr {x y : Float} (equal : (x == y) = true) : (x != 0) = (y != 0) := by
  have same : (x == 0) = (y == 0) :=
    Bool.eq_iff_iff.2 ⟨beq_trans (beq_symm equal), beq_trans equal⟩
  rw [bne, bne, same]

end Lehce.Number
