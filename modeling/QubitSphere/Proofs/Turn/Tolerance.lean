/-
# Operators that are unitary up to the tolerance

An operator counts as unitary when every entry of its adjoint times itself is within the tolerance
of the identity's.  That product is Hermitian, and its determinant is the square of the modulus of
the operator's determinant.  A Hermitian matrix within `e` of the identity has a determinant from
`1 - 2 e` to `(1 + e)²`: the diagonal entries are from `1 - e` to `1 + e`, and the square of the
other one, at most `e²`, is taken off their product (`det_re_of_close_to_one`).

So the determinant of an operator that counts as unitary is almost on the unit circle, and its
square root, which the entries are divided by, is not zero (`Operator.normSq_det_of_isUnitary`).
-/

import QubitSphere.Proofs.Turn.Phase

open Matrix

namespace QubitSphere

/-! ### Hermitian matrices near the identity -/

section Hermitian

variable {H : Matrix (Fin 2) (Fin 2) ℂ} {e : ℝ}

/-- The determinant of a Hermitian matrix by its diagonal and one of the other two entries. -/
theorem det_re_of_isHermitian (hH : H.IsHermitian) :
    H.det.re = (H 0 0).re * (H 1 1).re - Complex.normSq (H 0 1) := by
  have h₁ : ((H 1 1).re : ℂ) = H 1 1 := hH.coe_re_apply_self 1
  have hoff : H 0 1 * H 1 0 = (Complex.normSq (H 0 1) : ℂ) := by
    rw [← hH.apply 1 0, Complex.star_def, Complex.mul_conj]
  rw [det_fin_two, hoff, ← h₁, Complex.sub_re, Complex.re_mul_ofReal, Complex.ofReal_re,
    Complex.ofReal_re]

/-- **The determinant of a Hermitian matrix within `e` of the identity.** -/
theorem det_re_of_close_to_one (hH : H.IsHermitian) (he : e ≤ 1)
    (h : ∀ i j, ‖H i j - (1 : Matrix (Fin 2) (Fin 2) ℂ) i j‖ ≤ e) :
    1 - 2 * e ≤ H.det.re ∧ H.det.re ≤ (1 + e) ^ 2 := by
  have hdiagonal : ∀ i, |(H i i).re - 1| ≤ e := by
    intro i
    have hre := (Complex.abs_re_le_norm _).trans (h i i)
    rwa [one_apply_eq, Complex.sub_re, Complex.one_re] at hre
  have hoff : Complex.normSq (H 0 1) ≤ e ^ 2 := by
    have hnorm := h 0 1
    rw [one_apply_ne zero_ne_one, sub_zero] at hnorm
    rw [Complex.normSq_eq_norm_sq]
    exact pow_le_pow_left₀ (norm_nonneg _) hnorm 2
  have hnonneg := Complex.normSq_nonneg (H 0 1)
  obtain ⟨hlow, hhigh⟩ := abs_le.1 (hdiagonal 0)
  obtain ⟨hlow', hhigh'⟩ := abs_le.1 (hdiagonal 1)
  rw [det_re_of_isHermitian hH]
  -- the entry off the diagonal only lowers the determinant, so it does not matter above
  constructor
  · have hproduct : (1 - e) * (1 - e) ≤ (H 0 0).re * (H 1 1).re :=
      mul_le_mul (by linarith) (by linarith) (by linarith) (by linarith)
    linarith
  · have hproduct : (H 0 0).re * (H 1 1).re ≤ (1 + e) * (1 + e) :=
      mul_le_mul (by linarith) (by linarith) (by linarith) (by linarith)
    linarith

end Hermitian

/-- The determinant of `star M * M` is that of `M` in length, squared. -/
theorem det_star_mul_self (M : Matrix (Fin 2) (Fin 2) ℂ) :
    (star M * M).det = (Complex.normSq M.det : ℂ) := by
  rw [det_mul, star_eq_conjTranspose, det_conjTranspose, Complex.star_def, mul_comm,
    Complex.mul_conj]

namespace Operator

/-! ### What the tolerance lets through -/

theorem tolerance_eq : (tolerance : ℝ) = 3 / 10 ^ 16 := by
  change (3e-16 : ℝ) = _
  norm_num

/-- Two amplitudes are close exactly if their distance is within the tolerance. -/
theorem close_iff {z w : Amplitude ℝ} :
    close z w = true ↔ ‖z.toComplex - w.toComplex‖ ≤ tolerance := by
  unfold close
  rw [RealArith.lessEq_iff, ← Amplitude.toComplex_sub, Complex.norm_def, Complex.normSq_apply]
  rfl

/-- Two operators are close exactly if they are entry by entry. -/
theorem isCloseTo_iff {u w : Operator ℝ} :
    u.isCloseTo w = true ↔ ∀ i j, ‖u.toMatrix i j - w.toMatrix i j‖ ≤ tolerance := by
  unfold isCloseTo
  simp only [Bool.and_eq_true, close_iff, Fin.forall_fin_two, and_assoc]
  rfl

/-- **An operator counts as unitary if its adjoint times itself is within the tolerance of the
identity.** -/
theorem isUnitary_iff {u : Operator ℝ} : u.isUnitary = true ↔
    ∀ i j, ‖(star u.toMatrix * u.toMatrix) i j - (1 : Matrix (Fin 2) (Fin 2) ℂ) i j‖ ≤
      tolerance := by
  unfold isUnitary isIdentity
  rw [isCloseTo_iff, toMatrix_mul, toMatrix_adjoint, toMatrix_identity]

theorem normSq_det (u : Operator ℝ) : u.det.normSq = Complex.normSq u.toMatrix.det := by
  rw [det_toMatrix, Amplitude.normSq_toComplex]

/-- **An operator that is accepted has a determinant of length almost one**, from below and from
above. -/
theorem normSq_det_bounds {u : Operator ℝ} (h : u.isUnitary = true) :
    1 - 2 * tolerance ≤ u.det.normSq ∧ u.det.normSq ≤ (1 + tolerance) ^ 2 := by
  have hsmall : (tolerance : ℝ) ≤ 1 := by
    rw [tolerance_eq]
    norm_num
  have hbounds := det_re_of_close_to_one (isHermitian_conjTranspose_mul_self u.toMatrix) hsmall
    (isUnitary_iff.1 h)
  rwa [← star_eq_conjTranspose, det_star_mul_self, Complex.ofReal_re, ← normSq_det] at hbounds

/-- **The determinant of an operator that counts as unitary is on the unit circle up to twice the
tolerance and its square, and what the entries are divided by is not zero.**  So what is left
without the phase has the determinant one. -/
theorem normSq_det_of_isUnitary {u : Operator ℝ} (h : u.isUnitary = true) :
    |u.det.normSq - 1| ≤ 2 * tolerance + tolerance ^ 2 ∧ u.toMatrix.det ≠ 0 ∧
      u.det.sqrt.normSq ≠ 0 ∧ u.withoutPhase.toMatrix.det = 1 := by
  obtain ⟨hlow, hhigh⟩ := normSq_det_bounds h
  have hdet : u.toMatrix.det ≠ 0 := by
    intro hzero
    rw [normSq_det, hzero, map_zero, tolerance_eq] at hlow
    norm_num at hlow
  have hphase : u.phase ≠ 0 := by
    intro hzero
    rw [← phase_mul_self, hzero, mul_zero] at hdet
    exact hdet rfl
  have hdivisor : u.det.sqrt.normSq ≠ 0 := by
    rw [← Amplitude.normSq_toComplex]
    exact fun hzero => hphase (Complex.normSq_eq_zero.1 hzero)
  refine ⟨?_, hdet, hdivisor, det_withoutPhase hphase⟩
  rw [abs_le]
  constructor
  · linarith [sq_nonneg (tolerance : ℝ)]
  · linarith

/-- The identity with one entry off by a third of the tolerance. -/
noncomputable def nudged : Operator ℝ := ⟨⟨1 + 1 / 10 ^ 16, 0⟩, ⟨0, 0⟩, ⟨0, 0⟩, ⟨1, 0⟩⟩

/-- The adjoint of the nudged operator times itself; one entry is not that of the identity. -/
theorem star_mul_nudged : star nudged.toMatrix * nudged.toMatrix =
    !![(((1 + 1 / 10 ^ 16) ^ 2 : ℝ) : ℂ), 0; 0, 1] := by
  have hnudged : nudged.toMatrix = !![((1 + 1 / 10 ^ 16 : ℝ) : ℂ), 0; 0, 1] := by
    ext i j
    fin_cases i <;> fin_cases j <;> rfl
  have hstar : star nudged.toMatrix = nudged.toMatrix := by
    rw [hnudged]
    ext i j
    fin_cases i <;> fin_cases j <;> simp [star_apply]
  rw [hstar, hnudged, mul_fin_two]
  simp [sq]

/-- An operator that is not unitary may count as unitary, and can still be divided by the square
root of its determinant. -/
theorem normSq_det_nudged :
    nudged.isUnitary = true ∧ nudged.toMatrix ∉ unitaryGroup (Fin 2) ℂ ∧
      |nudged.det.normSq - 1| ≤ 2 * tolerance + tolerance ^ 2 ∧ nudged.toMatrix.det ≠ 0 ∧
      nudged.det.sqrt.normSq ≠ 0 ∧ nudged.withoutPhase.toMatrix.det = 1 := by
  have hunitary : nudged.isUnitary = true := by
    rw [isUnitary_iff, star_mul_nudged, tolerance_eq, Fin.forall_fin_two, Fin.forall_fin_two,
      Fin.forall_fin_two]
    refine ⟨⟨?_, by norm_num⟩, by norm_num, by norm_num⟩
    change ‖(((1 + 1 / 10 ^ 16) ^ 2 : ℝ) : ℂ) - 1‖ ≤ 3 / 10 ^ 16
    rw [← Complex.ofReal_one, ← Complex.ofReal_sub, Complex.norm_real, Real.norm_eq_abs, abs_le]
    norm_num
  refine ⟨hunitary, fun hmem => ?_, normSq_det_of_isUnitary hunitary⟩
  rw [mem_unitaryGroup_iff', star_mul_nudged] at hmem
  have hentry : (((1 + 1 / 10 ^ 16) ^ 2 : ℝ) : ℂ) = 1 := congrFun (congrFun hmem 0) 0
  have hre := congrArg Complex.re hentry
  norm_num [-Complex.ofReal_pow] at hre

end Operator
end QubitSphere
