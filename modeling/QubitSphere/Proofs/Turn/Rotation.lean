/-
# Rotations about the axes

A turn by the angle `t` about an axis acts on states as `exp (-i t σ / 2)`, where `σ` is the Pauli
matrix of the axis (`Axis.rotation`).  Each Pauli matrix is the one of `z` seen from another frame
(`Axis.frame`), so the exponential is `cos (t / 2) - i sin (t / 2) σ` for all three
(`Axis.rotation_eq`), a special matrix.

Played about `z`, then `y`, then `x`, three turns make up one special matrix
(`EulerAngles.product_eq_special`).  Its entries `a` and `b` come in half angles; the full angles
are in their products:

| product of entries | in the angles |
| --- | --- |
| `-2 a b` | `sin y + i sin x cos y` |
| `|a|² - |b|²` | `cos x cos y` |
| `a² - b̄²` | `cos y (cos z - i sin z)` |
-/

import QubitSphere.Proofs.Turn.Phase

open Matrix

namespace QubitSphere

namespace Axis

/-- The Pauli matrix of an axis. -/
def pauli : Axis → Matrix (Fin 2) (Fin 2) ℂ
  | x => !![0, 1; 1, 0]
  | y => !![0, -Complex.I; Complex.I, 0]
  | z => !![1, 0; 0, -1]

/-- The rotation of states by the angle `t` about an axis. -/
noncomputable def rotation (axis : Axis) (t : ℝ) : Matrix (Fin 2) (Fin 2) ℂ :=
  NormedSpace.exp ((-Complex.I * t / 2) • axis.pauli)

/-- A basis of eigenvectors of the Pauli matrix of an axis. -/
noncomputable def frame : Axis → Matrix (Fin 2) (Fin 2) ℂ
  | x => !![1, 1; 1, -1]
  | y => !![1, 1; Complex.I, -Complex.I]
  | z => 1

/-- The vectors of a frame are independent. -/
theorem det_frame_ne_zero (axis : Axis) : axis.frame.det ≠ 0 := by
  cases axis
  · rw [frame, det_fin_two_of]; norm_num
  · rw [frame, det_fin_two_of, one_mul, one_mul, ← neg_add', ← two_mul, neg_ne_zero]
    exact mul_ne_zero two_ne_zero Complex.I_ne_zero
  · rw [frame, det_one]; exact one_ne_zero

/-- The vectors of a frame are eigenvectors, with the eigenvalues 1 and -1. -/
theorem pauli_mul_frame (axis : Axis) : axis.pauli * axis.frame = axis.frame * pauli .z := by
  cases axis <;> simp [pauli, frame]

/-- Every Pauli matrix is the one of `z`, seen from the frame of its axis. -/
theorem pauli_eq_conj (axis : Axis) : axis.pauli = axis.frame * pauli .z * axis.frame⁻¹ := by
  rw [← pauli_mul_frame, mul_assoc, mul_nonsing_inv _ (det_frame_ne_zero axis).isUnit, mul_one]

/-- The exponential of a multiple of the diagonal Pauli matrix. -/
theorem exp_smul_pauli_z (c : ℂ) : NormedSpace.exp (c • pauli .z) =
    Complex.cosh c • (1 : Matrix (Fin 2) (Fin 2) ℂ) + Complex.sinh c • pauli .z := by
  have hdiag : c • pauli .z = diagonal ![c, -c] := by
    ext i j; fin_cases i <;> fin_cases j <;> simp [pauli]
  rw [hdiag, Matrix.exp_diagonal]
  ext i j
  fin_cases i <;> fin_cases j <;>
    simp [pauli, Pi.coe_exp, ← Complex.exp_eq_exp_ℂ, ← sub_eq_add_neg]

/-- The exponential commutes with the change of frame. -/
theorem exp_smul_pauli (axis : Axis) (c : ℂ) : NormedSpace.exp (c • axis.pauli) =
    Complex.cosh c • (1 : Matrix (Fin 2) (Fin 2) ℂ) + Complex.sinh c • axis.pauli := by
  have hunit : IsUnit axis.frame.det := (det_frame_ne_zero axis).isUnit
  have hconj : c • axis.pauli = axis.frame * (c • pauli .z) * axis.frame⁻¹ := by
    rw [pauli_eq_conj axis, mul_smul_comm, smul_mul_assoc]
  rw [hconj, Matrix.exp_conj _ _ ((isUnit_iff_isUnit_det _).2 hunit), exp_smul_pauli_z, mul_add,
    add_mul, mul_smul_comm, mul_smul_comm, smul_mul_assoc, smul_mul_assoc, mul_one,
    mul_nonsing_inv _ hunit, ← pauli_eq_conj]

/-- **A rotation in closed form:** `cos (t / 2) - i sin (t / 2) σ`. -/
theorem rotation_eq (axis : Axis) (t : ℝ) :
    axis.rotation t = (Real.cos (t / 2) : ℂ) • (1 : Matrix (Fin 2) (Fin 2) ℂ) -
      (Complex.I * Real.sin (t / 2)) • axis.pauli := by
  have hc : -Complex.I * t / 2 = -(((t / 2 : ℝ) : ℂ) * Complex.I) := by push_cast; ring
  rw [rotation, exp_smul_pauli, hc, Complex.cosh_neg, Complex.sinh_neg, Complex.cosh_mul_I,
    Complex.sinh_mul_I, neg_smul, ← sub_eq_add_neg, mul_comm (Complex.sin _), Complex.ofReal_cos,
    Complex.ofReal_sin]

/-- A rotation about `x` as a special matrix. -/
theorem rotation_x (t : ℝ) :
    rotation .x t = special (Real.cos (t / 2)) (-(Complex.I * Real.sin (t / 2))) := by
  rw [rotation_eq]
  ext i j
  fin_cases i <;> fin_cases j <;> simp [special, pauli, -Complex.ofReal_sin, -Complex.ofReal_cos]

theorem rotation_y (t : ℝ) : rotation .y t = special (Real.cos (t / 2)) (-Real.sin (t / 2)) := by
  rw [rotation_eq]
  ext i j
  fin_cases i <;> fin_cases j <;>
    simp [special, pauli, -Complex.ofReal_sin, -Complex.ofReal_cos, mul_right_comm _ _ Complex.I]

theorem rotation_z (t : ℝ) :
    rotation .z t = special (Real.cos (t / 2) - Complex.I * Real.sin (t / 2)) 0 := by
  rw [rotation_eq]
  ext i j
  fin_cases i <;> fin_cases j <;> simp [special, pauli, -Complex.ofReal_sin, -Complex.ofReal_cos]

end Axis

namespace EulerAngles

variable (angles : EulerAngles ℝ)

/-- The three turns played about `z`, then `y`, then `x`. -/
noncomputable def product : Matrix (Fin 2) (Fin 2) ℂ :=
  Axis.rotation .x angles.x * Axis.rotation .y angles.y * Axis.rotation .z angles.z

/-- The first entry of the turns about `y` and `x` alone. -/
noncomputable def kept : ℂ :=
  Real.cos (angles.x / 2) * Real.cos (angles.y / 2) -
    Complex.I * Real.sin (angles.x / 2) * Real.sin (angles.y / 2)

/-- The second entry of the turns about `y` and `x` alone, less its sign. -/
noncomputable def moved : ℂ :=
  Real.cos (angles.x / 2) * Real.sin (angles.y / 2) +
    Complex.I * Real.sin (angles.x / 2) * Real.cos (angles.y / 2)

/-- What the turn about `z` multiplies the first column by. -/
noncomputable def twist : ℂ :=
  Real.cos (angles.z / 2) - Complex.I * Real.sin (angles.z / 2)

/-- The first entry of the product of the turns. -/
noncomputable def first : ℂ := angles.kept * angles.twist

/-- The second entry of the product of the turns. -/
noncomputable def second : ℂ := -(angles.moved * (starRingEnd ℂ) angles.twist)

/-- **Three turns make up one special matrix.** -/
theorem product_eq_special : angles.product = special angles.first angles.second := by
  rw [product, Axis.rotation_x, Axis.rotation_y, Axis.rotation_z, special_mul, special_mul, first,
    second]
  congr 1 <;>
  · simp only [kept, moved, twist, map_neg, map_sub, map_mul, map_zero, Complex.conj_ofReal,
      Complex.conj_I]
    ring

theorem cos_eq_half (t : ℝ) : Real.cos t = Real.cos (t / 2) ^ 2 - Real.sin (t / 2) ^ 2 := by
  rw [← Real.cos_two_mul', mul_div_cancel₀ _ two_ne_zero]

theorem sin_eq_half (t : ℝ) : Real.sin t = 2 * Real.sin (t / 2) * Real.cos (t / 2) := by
  rw [← Real.sin_two_mul, mul_div_cancel₀ _ two_ne_zero]

/-- The length of `kept` in half angles, squared. -/
theorem normSq_kept : Complex.normSq angles.kept =
    Real.cos (angles.x / 2) ^ 2 * Real.cos (angles.y / 2) ^ 2 +
      Real.sin (angles.x / 2) ^ 2 * Real.sin (angles.y / 2) ^ 2 := by
  simp [kept, Complex.normSq_apply, -Complex.ofReal_sin, -Complex.ofReal_cos]
  ring

theorem normSq_moved : Complex.normSq angles.moved =
    Real.cos (angles.x / 2) ^ 2 * Real.sin (angles.y / 2) ^ 2 +
      Real.sin (angles.x / 2) ^ 2 * Real.cos (angles.y / 2) ^ 2 := by
  simp [moved, Complex.normSq_apply, -Complex.ofReal_sin, -Complex.ofReal_cos]
  ring

/-- The twist is a phase. -/
theorem normSq_twist : Complex.normSq angles.twist = 1 := by
  simp [twist, Complex.normSq_apply, -Complex.ofReal_sin, -Complex.ofReal_cos]
  linear_combination Real.sin_sq_add_cos_sq (angles.z / 2)

/-- The twist does not change the length of the first entry. -/
theorem normSq_first : Complex.normSq angles.first = Complex.normSq angles.kept := by
  rw [first, map_mul, normSq_twist, mul_one]

/-- The twist does not change the length of the second entry. -/
theorem normSq_second : Complex.normSq angles.second = Complex.normSq angles.moved := by
  rw [second, Complex.normSq_neg, map_mul, Complex.normSq_conj, normSq_twist, mul_one]

/-- The first row of the product of turns has length one. -/
theorem normSq_first_add_second :
    Complex.normSq angles.first + Complex.normSq angles.second = 1 := by
  rw [normSq_first, normSq_second, normSq_kept, normSq_moved]
  have hx := Real.sin_sq_add_cos_sq (angles.x / 2)
  have hy := Real.sin_sq_add_cos_sq (angles.y / 2)
  linear_combination hx + (Real.sin (angles.x / 2) ^ 2 + Real.cos (angles.x / 2) ^ 2) * hy

/-- **The height that the turns leave the upper pole at.** -/
theorem normSq_first_sub_second :
    Complex.normSq angles.first - Complex.normSq angles.second =
      Real.cos angles.x * Real.cos angles.y := by
  rw [normSq_first, normSq_second, normSq_kept, normSq_moved, cos_eq_half angles.x,
    cos_eq_half angles.y]
  ring

/-- **How far the turns move the upper pole to the side and into the depth.** -/
theorem first_mul_second :
    -2 * (angles.first * angles.second) =
      Real.sin angles.y + Complex.I * (Real.sin angles.x * Real.cos angles.y) := by
  have htwist : angles.twist * (starRingEnd ℂ) angles.twist = 1 := by
    rw [Complex.mul_conj, normSq_twist, Complex.ofReal_one]
  have hprod : -2 * (angles.first * angles.second) = 2 * (angles.kept * angles.moved) := by
    rw [first, second]
    linear_combination 2 * angles.kept * angles.moved * htwist
  rw [hprod]
  apply Complex.ext
  · simp [kept, moved, -Complex.ofReal_sin, -Complex.ofReal_cos]
    rw [sin_eq_half angles.y]
    linear_combination 2 * Real.sin (angles.y / 2) * Real.cos (angles.y / 2) *
      Real.sin_sq_add_cos_sq (angles.x / 2)
  · simp [kept, moved, -Complex.ofReal_sin, -Complex.ofReal_cos]
    rw [sin_eq_half angles.x, cos_eq_half angles.y]
    ring

/-- The twist, squared, is in the full angle about `z`. -/
theorem sq_twist : angles.twist ^ 2 = Real.cos angles.z - Complex.I * Real.sin angles.z := by
  apply Complex.ext
  · simp [twist, sq, -Complex.ofReal_sin, -Complex.ofReal_cos]
    rw [cos_eq_half angles.z]
    ring
  · simp [twist, sq, -Complex.ofReal_sin, -Complex.ofReal_cos]
    rw [sin_eq_half angles.z]
    ring

/-- What the twist multiplies in `a² - b̄²` is the cosine of the full angle about `y`. -/
theorem sq_kept_sub_moved :
    angles.kept ^ 2 - (starRingEnd ℂ) angles.moved ^ 2 = Real.cos angles.y := by
  apply Complex.ext
  · simp [kept, moved, sq, -Complex.ofReal_sin, -Complex.ofReal_cos]
    rw [cos_eq_half angles.y]
    linear_combination (Real.cos (angles.y / 2) ^ 2 - Real.sin (angles.y / 2) ^ 2) *
      Real.sin_sq_add_cos_sq (angles.x / 2)
  · simp [kept, moved, sq, -Complex.ofReal_sin, -Complex.ofReal_cos]
    ring

/-- **How the turns swing the plane across the poles.** -/
theorem sq_first_sub_second :
    angles.first ^ 2 - (starRingEnd ℂ) angles.second ^ 2 =
      Real.cos angles.y * (Real.cos angles.z - Complex.I * Real.sin angles.z) := by
  rw [← sq_twist, ← sq_kept_sub_moved, first, second, map_neg, map_mul, Complex.conj_conj]
  ring

end EulerAngles

end QubitSphere
