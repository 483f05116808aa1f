/-
# Angles do not depend on scale or phase

The angles of an operator are read off its entries divided by the square root of the determinant.
Each of them is the angle or the arc sine of products of two entries, one of them conjugated
(`EulerAngles.ofEntries`), so nothing changes if all entries change their sign
(`EulerAngles.ofEntries_neg`).  That is all the difference between the two square roots of the
determinant (`Operator.readAngles_eq_of_inv_smul`).

A factor `f` of all entries multiplies the determinant by `f²`, and its principal square root by `f`
or by `-f`, as the branch falls.  Either way it is divided out again
(`Operator.eulerAngles_eq_of_smul`).
-/

import QubitSphere.Proofs.Turn.Phase

open Matrix

namespace QubitSphere

namespace Operator

section Division

variable {α : Type} [RealArith α]

/-- Every entry divided by `s`. -/
def dividedBy (u : Operator α) (s : Amplitude α) : Operator α :=
  ⟨u.a11 / s, u.a12 / s, u.a21 / s, u.a22 / s⟩

/-- The angles that are read off the entries of an operator, as they are. -/
def readAngles (u : Operator α) : EulerAngles α :=
  let ⟨a, b, c, d⟩ := u
  let across := a * c.conj - b * d.conj
  { z := RealArith.atan2 (-(a * d.conj - b * c.conj).im) (a * d.conj + b * c.conj).re
    y := RealArith.asin (RealArith.clampToUnit across.re)
    x := RealArith.atan2 across.im (a.normSq - b.normSq - c.normSq + d.normSq) }

/-- **Angles are read off after division by the principal square root of the determinant.** -/
theorem eulerAngles_eq_readAngles (u : Operator α) :
    u.eulerAngles = (u.dividedBy u.det.sqrt).readAngles := rfl

end Division

theorem toMatrix_dividedBy (u : Operator ℝ) (s : Amplitude ℝ) :
    (u.dividedBy s).toMatrix = s.toComplex⁻¹ • u.toMatrix := by
  simp only [toMatrix, dividedBy, Amplitude.toComplex_div, smul_of, smul_cons, smul_empty,
    smul_eq_mul, div_eq_inv_mul]

theorem toMatrix_scale (u : Operator ℝ) (f : Amplitude ℝ) :
    (u.scale f).toMatrix = f.toComplex • u.toMatrix := by
  simp only [toMatrix, scale, Amplitude.toComplex_mul, smul_of, smul_cons, smul_empty,
    smul_eq_mul, mul_comm]

end Operator

namespace EulerAngles

/-- The angles that are read off the four entries of a matrix. -/
noncomputable def ofEntries (a b c d : ℂ) : EulerAngles ℝ :=
  let across := a * (starRingEnd ℂ) c - b * (starRingEnd ℂ) d
  { z := Complex.arg ⟨(a * (starRingEnd ℂ) d + b * (starRingEnd ℂ) c).re,
      -(a * (starRingEnd ℂ) d - b * (starRingEnd ℂ) c).im⟩
    y := Real.arcsin (RealArith.clampToUnit across.re)
    x := Complex.arg ⟨Complex.normSq a - Complex.normSq b - Complex.normSq c + Complex.normSq d,
      across.im⟩ }

/-- **Angles stay the same if all entries change their sign.** -/
theorem ofEntries_neg (a b c d : ℂ) : ofEntries (-a) (-b) (-c) (-d) = ofEntries a b c d := by
  simp only [ofEntries, map_neg, neg_mul_neg, Complex.normSq_neg]

end EulerAngles

namespace Operator

variable {u w : Operator ℝ}

/-- The angles that are read off, as a function of the entries of the matrix. -/
theorem readAngles_eq_ofEntries (u : Operator ℝ) : u.readAngles =
    .ofEntries (u.toMatrix 0 0) (u.toMatrix 0 1) (u.toMatrix 1 0) (u.toMatrix 1 1) := rfl

/-- **It does not matter which square root of a number the entries are divided by.** -/
theorem readAngles_eq_of_inv_smul {M : Matrix (Fin 2) (Fin 2) ℂ} {s t : ℂ} (h : s * s = t * t)
    (hu : u.toMatrix = s⁻¹ • M) (hw : w.toMatrix = t⁻¹ • M) : u.readAngles = w.readAngles := by
  rcases mul_self_eq_mul_self_iff.1 h with rfl | rfl
  · rw [readAngles_eq_ofEntries, readAngles_eq_ofEntries, hu, hw]
  · have hneg : u.toMatrix = -w.toMatrix := by rw [hu, hw, inv_neg, neg_smul]
    rw [readAngles_eq_ofEntries, readAngles_eq_ofEntries, hneg]
    exact EulerAngles.ofEntries_neg ..

/-- **A factor of all entries does not change the angles.** -/
theorem eulerAngles_eq_of_smul {f : ℂ} (hf : f ≠ 0) (h : u.toMatrix = f • w.toMatrix) :
    u.eulerAngles = w.eulerAngles := by
  have hroot : u.phase * u.phase = f * w.phase * (f * w.phase) := by
    rw [phase_mul_self, h, det_smul, Fintype.card_fin, mul_mul_mul_comm, phase_mul_self, sq]
  have hmatrix : (f * w.phase)⁻¹ • u.toMatrix = w.phase⁻¹ • w.toMatrix := by
    rw [h, smul_smul, mul_inv, mul_right_comm, inv_mul_cancel₀ hf, one_mul]
  rw [eulerAngles_eq_readAngles, eulerAngles_eq_readAngles]
  exact readAngles_eq_of_inv_smul hroot (toMatrix_dividedBy u u.det.sqrt)
    ((toMatrix_dividedBy w w.det.sqrt).trans hmatrix.symm)

/-- **Neither a factor of all entries nor the choice of the square root matters to the angles** of
an operator whose determinant is not zero, and the root that the entries are divided by is not zero
either. -/
theorem eulerAngles_scale_and_root (hdet : u.toMatrix.det ≠ 0) :
    (∀ f : Amplitude ℝ, f.toComplex ≠ 0 →
        (u.scale f).phase ≠ 0 ∧ (u.scale f).eulerAngles = u.eulerAngles) ∧
      ∀ s : Amplitude ℝ, s.toComplex * s.toComplex = u.toMatrix.det →
        s.toComplex ≠ 0 ∧ (u.dividedBy s).readAngles = u.eulerAngles := by
  constructor
  · intro f hf
    refine ⟨fun hphase => ?_, eulerAngles_eq_of_smul hf (toMatrix_scale u f)⟩
    have hscaled : (u.scale f).toMatrix.det = 0 := by rw [← phase_mul_self, hphase, mul_zero]
    rw [toMatrix_scale, det_smul] at hscaled
    exact mul_ne_zero (pow_ne_zero _ hf) hdet hscaled
  · intro s hs
    refine ⟨fun h0 => hdet (by rw [← hs, h0, mul_zero]), ?_⟩
    rw [eulerAngles_eq_readAngles]
    exact readAngles_eq_of_inv_smul (hs.trans u.phase_mul_self.symm) (toMatrix_dividedBy u s)
      (toMatrix_dividedBy u u.det.sqrt)

/-- An operator of determinant one that is not unitary. -/
def shear : Operator ℝ := ⟨⟨1, 0⟩, ⟨0, 1⟩, ⟨0, 0⟩, ⟨1, 0⟩⟩

theorem det_toMatrix_shear : shear.toMatrix.det = 1 := by
  rw [toMatrix, det_fin_two_of]
  apply Complex.ext <;> simp [shear, Amplitude.toComplex]

/-- Multiplied by `-3 i` the shear has the determinant `-9`, whose principal square root is
`3 i`. -/
theorem eulerAngles_scale_shear :
    shear.toMatrix.det ≠ 0 ∧ (shear.scale ⟨0, -3⟩).eulerAngles = shear.eulerAngles ∧
      (shear.dividedBy ⟨-1, 0⟩).readAngles = shear.eulerAngles := by
  have hdet : shear.toMatrix.det ≠ 0 := by rw [det_toMatrix_shear]; exact one_ne_zero
  have hfactor : (⟨0, -3⟩ : Amplitude ℝ).toComplex ≠ 0 := fun h => by
    have him := congrArg Complex.im h
    norm_num at him
  have hroot : (⟨-1, 0⟩ : Amplitude ℝ).toComplex * (⟨-1, 0⟩ : Amplitude ℝ).toComplex =
      shear.toMatrix.det := by
    rw [det_toMatrix_shear]
    apply Complex.ext <;> simp
  obtain ⟨hscale, hread⟩ := eulerAngles_scale_and_root hdet
  exact ⟨hdet, (hscale _ hfactor).2, (hread _ hroot).2⟩

end Operator
end QubitSphere
