/-
# Exact arithmetic

The real numbers with their own root, sine, cosine, arc sine and angle are an arithmetic to compute
with, in which nothing is rounded.  Over it an amplitude is a complex number
(`Amplitude.toComplex`), its operations are those of the complex numbers, and its square root is
the principal one (`Amplitude.toComplex_sqrt`): the special cases on the two axes only say what the
polar form says there.
-/

import Mathlib
import QubitSphere.Arith.Amplitude

namespace QubitSphere

/-- One proof that all definitions share which write a real number with the numeral two. -/
instance atLeastTwo_two : Nat.AtLeastTwo 2 := ⟨le_rfl⟩

/-- The real numbers; there is one zero, and it has no sign. -/
noncomputable instance : RealArith ℝ where
  pi := Real.pi
  sqrt := Real.sqrt
  sin := Real.sin
  cos := Real.cos
  asin := Real.arcsin
  atan2 y x := Complex.arg ⟨x, y⟩
  hypot x y := Real.sqrt (x * x + y * y)
  lessEq x y := decide (x ≤ y)
  isZero x := decide (x = 0)
  isNegative x := decide (x < 0)

namespace RealArith

/-- Comparing exact reals is exact. -/
theorem lessEq_iff {x y : ℝ} : lessEq x y = true ↔ x ≤ y := decide_eq_true_iff

/-- An exact real is zero only if it is, with no round-off and no second zero. -/
theorem isZero_iff {x : ℝ} : isZero x = true ↔ x = 0 := decide_eq_true_iff

/-- An exact real is negative only if it is below zero. -/
theorem isNegative_iff {x : ℝ} : isNegative x = true ↔ x < 0 := decide_eq_true_iff

/-- The literal `0.0` is read as zero. -/
theorem ofScientific_zero :
    @OfScientific.ofScientific ℝ RealArith.toOfScientific 0 true 1 = 0 := by
  change (0.0 : ℝ) = 0
  norm_num

/-- The literal `1.0` is read as one. -/
theorem ofScientific_one :
    @OfScientific.ofScientific ℝ RealArith.toOfScientific 10 true 1 = 1 := by
  change (1.0 : ℝ) = 1
  norm_num

/-- The literal `2.0` is read as two.  With the two above these are all the literals of the formulas
that are taken at the reals. -/
theorem ofScientific_two :
    @OfScientific.ofScientific ℝ RealArith.toOfScientific 20 true 1 = 2 := by
  change (2.0 : ℝ) = 2
  norm_num

/-- The magnitude that arithmetic takes, with a case for the negative numbers, is the absolute
value. -/
theorem abs_eq (x : ℝ) : RealArith.abs x = |x| := by
  unfold RealArith.abs
  split_ifs with h
  · exact (abs_of_neg (isNegative_iff.1 h)).symm
  · exact (abs_of_nonneg (not_lt.1 fun hx => h (isNegative_iff.2 hx))).symm

/-- **Cutting off at `±1` leaves the numbers from one to the other alone.** -/
theorem clampToUnit_of_mem {x : ℝ} (h₁ : -1 ≤ x) (h₂ : x ≤ 1) : clampToUnit x = x := by
  unfold clampToUnit
  rw [ofScientific_one]
  split_ifs with hbelow habove
  · exact le_antisymm h₁ (lessEq_iff.1 hbelow)
  · exact le_antisymm (lessEq_iff.1 habove) h₂
  · rfl

end RealArith

namespace Amplitude

/-- An amplitude over the real numbers as a complex number. -/
def toComplex (z : Amplitude ℝ) : ℂ := ⟨z.re, z.im⟩

@[simp] theorem toComplex_re (z : Amplitude ℝ) : z.toComplex.re = z.re := rfl

@[simp] theorem toComplex_im (z : Amplitude ℝ) : z.toComplex.im = z.im := rfl

@[simp] theorem toComplex_add (z w : Amplitude ℝ) :
    (z + w).toComplex = z.toComplex + w.toComplex := rfl

@[simp] theorem toComplex_sub (z w : Amplitude ℝ) :
    (z - w).toComplex = z.toComplex - w.toComplex := rfl

@[simp] theorem toComplex_mul (z w : Amplitude ℝ) :
    (z * w).toComplex = z.toComplex * w.toComplex := rfl

@[simp] theorem toComplex_conj (z : Amplitude ℝ) :
    z.conj.toComplex = (starRingEnd ℂ) z.toComplex := rfl

theorem normSq_toComplex (z : Amplitude ℝ) : Complex.normSq z.toComplex = z.normSq :=
  Complex.normSq_apply _

/-- The squared magnitude is the sum of two squares, as the formulas for directions use it. -/
theorem normSq_eq (z : Amplitude ℝ) : z.normSq = z.re ^ 2 + z.im ^ 2 := by
  rw [sq, sq]
  rfl

/-- **Quotients of amplitudes are quotients of complex numbers**, also where the divisor is zero:
both are then zero. -/
@[simp] theorem toComplex_div (z w : Amplitude ℝ) :
    (z / w).toComplex = z.toComplex / w.toComplex := by
  apply Complex.ext
  · rw [Complex.div_re, ← add_div]; rfl
  · rw [Complex.div_im, ← sub_div]; rfl

/-- The half power of a complex number in polar form. -/
theorem half_cpow_eq (w : ℂ) : w ^ (2⁻¹ : ℂ) =
    ⟨Real.sqrt ‖w‖ * Real.cos (w.arg / 2), Real.sqrt ‖w‖ * Real.sin (w.arg / 2)⟩ := by
  have h : (2⁻¹ : ℂ) = ((2⁻¹ : ℝ) : ℂ) := by norm_num
  rw [h, div_eq_mul_inv, Real.sqrt_eq_rpow, one_div]
  exact Complex.ext (Complex.cpow_ofReal_re w _) (Complex.cpow_ofReal_im w _)

/-- The half power of a complex number on the imaginary axis. -/
theorem half_cpow_of_re_eq_zero {w : ℂ} (h : w.re = 0) : w ^ (2⁻¹ : ℂ) =
    ⟨Real.sqrt (|w.im| / 2),
      if w.im < 0 then -Real.sqrt (|w.im| / 2) else Real.sqrt (|w.im| / 2)⟩ := by
  have hnorm : ‖w‖ = |w.im| := (Complex.abs_im_eq_norm.2 h).symm
  refine Complex.ext ?_ ?_
  · rw [Complex.cpow_inv_two_re, h, hnorm, add_zero]
  · dsimp only
    split_ifs with him
    · rw [Complex.cpow_inv_two_im_eq_neg_sqrt him, h, hnorm, sub_zero]
    · rw [Complex.cpow_inv_two_im_eq_sqrt (not_lt.1 him), h, hnorm, sub_zero]

/-- **The square root is the principal one.** -/
theorem toComplex_sqrt (z : Amplitude ℝ) : z.sqrt.toComplex = z.toComplex ^ (2⁻¹ : ℂ) := by
  obtain ⟨x, y⟩ := z
  unfold sqrt
  simp only [RealArith.isZero_iff, RealArith.isNegative_iff, RealArith.ofScientific_zero,
    RealArith.ofScientific_two, RealArith.abs_eq]
  by_cases hy : y = 0
  · subst hy
    by_cases hx : x < 0
    · -- the angle is `π`, so the root points straight up
      have harg : (⟨x, 0⟩ : ℂ).arg = Real.pi := Complex.arg_eq_pi_iff.2 ⟨hx, rfl⟩
      have hnorm : ‖(⟨x, 0⟩ : ℂ)‖ = -x := by
        rw [← Complex.abs_re_eq_norm.2 rfl, abs_of_neg hx]
      rw [if_pos rfl, if_pos hx, if_neg (lt_irrefl 0), toComplex, half_cpow_eq]
      simp only [toComplex, harg, hnorm, Real.cos_pi_div_two, Real.sin_pi_div_two, mul_zero,
        mul_one]
      rfl
    · have harg : (⟨x, 0⟩ : ℂ).arg = 0 := Complex.arg_eq_zero_iff.2 ⟨not_lt.1 hx, rfl⟩
      have hnorm : ‖(⟨x, 0⟩ : ℂ)‖ = x := by
        rw [← Complex.abs_re_eq_norm.2 rfl, abs_of_nonneg (not_lt.1 hx)]
      rw [if_pos rfl, if_neg hx, toComplex, half_cpow_eq]
      simp only [toComplex, harg, hnorm, zero_div, Real.cos_zero, Real.sin_zero, mul_zero, mul_one]
      rfl
  · rw [if_neg hy]
    by_cases hx : x = 0
    · rw [if_pos hx, half_cpow_of_re_eq_zero (by exact hx)]
      rfl
    · rw [if_neg hx, half_cpow_eq]
      rfl

/-- The square root squared. -/
theorem sqrt_mul_self (z : Amplitude ℝ) :
    z.sqrt.toComplex * z.sqrt.toComplex = z.toComplex := by
  rw [toComplex_sqrt, ← sq]
  exact_mod_cast Complex.cpow_nat_inv_pow z.toComplex two_ne_zero

end Amplitude
end QubitSphere
