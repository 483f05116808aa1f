/-
# Operators up to their global phase

Over the real numbers an operator is a two by two matrix (`Operator.toMatrix`).  Divided by the
square root of its determinant, a unitary one becomes special (`special`): a matrix with rows
`(a, b)` and `(-b̄, ā)` where `|a|² + |b|² = 1`, and the root is a phase
(`Operator.exists_special`).  Two special matrices are equal up to a phase exactly when they are
equal up to their sign (`eqUpToPhase_special_iff`).
-/

import QubitSphere.Proofs.Arith.Exact
import QubitSphere.Turn

open Matrix

namespace QubitSphere

/-- Two matrices that differ by a complex factor of modulus one. -/
def EqUpToPhase (M N : Matrix (Fin 2) (Fin 2) ℂ) : Prop :=
  ∃ φ : ℂ, ‖φ‖ = 1 ∧ M = φ • N

/-- The matrix with rows `(a, b)` and `(-b̄, ā)`. -/
def special (a b : ℂ) : Matrix (Fin 2) (Fin 2) ℂ :=
  !![a, b; -(starRingEnd ℂ) b, (starRingEnd ℂ) a]

/-- The determinant of a special matrix is the length of its first row, squared. -/
theorem det_special (a b : ℂ) :
    (special a b).det = ((Complex.normSq a + Complex.normSq b : ℝ) : ℂ) := by
  rw [special, det_fin_two_of, Complex.mul_conj, mul_neg, Complex.mul_conj, sub_neg_eq_add,
    Complex.ofReal_add]

/-- A special matrix has only one first row. -/
theorem special_inj {a b c d : ℂ} (h : special a b = special c d) : a = c ∧ b = d :=
  ⟨congrFun (congrFun h 0) 0, congrFun (congrFun h 0) 1⟩

/-- The product of two special matrices is special. -/
theorem special_mul (a b c d : ℂ) : special a b * special c d =
    special (a * c - b * (starRingEnd ℂ) d) (a * d + b * (starRingEnd ℂ) c) := by
  ext i j
  fin_cases i <;> fin_cases j <;> simp [special] <;> ring

/-- **A unitary matrix of determinant one is special.** -/
theorem eq_special_of_det_eq_one {M : Matrix (Fin 2) (Fin 2) ℂ} (hM : M ∈ unitaryGroup (Fin 2) ℂ)
    (hdet : M.det = 1) : M = special (M 0 0) (M 0 1) := by
  have hadj : star M = M.adjugate := by
    calc star M = star M * (M * M.adjugate) := by rw [mul_adjugate, hdet, one_smul, mul_one]
      _ = M.adjugate := by rw [← mul_assoc, mem_unitaryGroup_iff'.1 hM, one_mul]
  rw [adjugate_fin_two] at hadj
  have h₁ : (starRingEnd ℂ) (M 0 0) = M 1 1 := congrFun (congrFun hadj 0) 0
  have h₂ : (starRingEnd ℂ) (M 0 1) = -M 1 0 := congrFun (congrFun hadj 1) 0
  rw [special, h₁, h₂, neg_neg]
  exact eta_fin_two M

/-- The adjoint of a special matrix is special. -/
theorem star_special (a b : ℂ) : star (special a b) = special ((starRingEnd ℂ) a) (-b) := by
  ext i j
  fin_cases i <;> fin_cases j <;> simp [special, star_apply]

/-- A special matrix is unitary if its first row has length one. -/
theorem special_mem_unitaryGroup {a b : ℂ} (hab : Complex.normSq a + Complex.normSq b = 1) :
    special a b ∈ unitaryGroup (Fin 2) ℂ := by
  have hdet : a * (starRingEnd ℂ) a - b * (starRingEnd ℂ) (-b) = 1 := by
    rw [map_neg, mul_neg, sub_neg_eq_add, Complex.mul_conj, Complex.mul_conj, ← Complex.ofReal_add,
      hab, Complex.ofReal_one]
  have hzero : a * -b + b * (starRingEnd ℂ) ((starRingEnd ℂ) a) = 0 := by
    rw [Complex.conj_conj]; ring
  rw [mem_unitaryGroup_iff, star_special, special_mul, hdet, hzero, special, map_zero, map_one,
    neg_zero, one_fin_two]

/-- **Special matrices that are equal up to a phase are equal up to their sign.** -/
theorem eqUpToPhase_special_iff {s a b c d : ℂ} (hs : ‖s‖ = 1)
    (hab : Complex.normSq a + Complex.normSq b = 1)
    (hcd : Complex.normSq c + Complex.normSq d = 1) :
    EqUpToPhase (s • special a b) (special c d) ↔ (a = c ∧ b = d) ∨ (a = -c ∧ b = -d) := by
  constructor
  · rintro ⟨φ, hφ, h⟩
    have hs0 : s ≠ 0 := fun h0 => by rw [h0, norm_zero] at hs; exact zero_ne_one hs
    have hdet := congrArg Matrix.det h
    rw [det_smul, det_smul, det_special, det_special, hab, hcd, Fintype.card_fin] at hdet
    have hsq : φ ^ 2 = s ^ 2 := by simpa using hdet.symm
    rcases sq_eq_sq_iff_eq_or_eq_neg.1 hsq with rfl | rfl
    · exact Or.inl (special_inj (smul_right_injective _ hs0 h))
    · rw [neg_smul, ← smul_neg] at h
      have h' := smul_right_injective _ hs0 h
      exact Or.inr ⟨congrFun (congrFun h' 0) 0, congrFun (congrFun h' 0) 1⟩
  · rintro (⟨rfl, rfl⟩ | ⟨rfl, rfl⟩)
    · exact ⟨s, hs, rfl⟩
    · refine ⟨-s, by rw [norm_neg, hs], ?_⟩
      rw [neg_smul, ← smul_neg]
      simp [special]

namespace Operator

/-- An operator over the real numbers as a matrix. -/
def toMatrix (u : Operator ℝ) : Matrix (Fin 2) (Fin 2) ℂ :=
  !![u.a11.toComplex, u.a12.toComplex; u.a21.toComplex, u.a22.toComplex]

theorem det_toMatrix (u : Operator ℝ) : u.toMatrix.det = u.det.toComplex :=
  det_fin_two_of _ _ _ _

theorem toMatrix_identity : (identity : Operator ℝ).toMatrix = 1 := by
  ext i j
  fin_cases i <;> fin_cases j <;> apply Complex.ext <;>
    simp [toMatrix, identity, Amplitude.ofReal, Amplitude.toComplex, RealArith.ofScientific_one,
      RealArith.ofScientific_zero]

theorem toMatrix_mul (u w : Operator ℝ) : (u * w).toMatrix = u.toMatrix * w.toMatrix := by
  unfold toMatrix
  rw [mul_fin_two]
  rfl

theorem toMatrix_adjoint (u : Operator ℝ) : u.adjoint.toMatrix = star u.toMatrix := by
  ext i j
  fin_cases i <;> fin_cases j <;> rfl

/-- What `withoutPhase` divides by. -/
noncomputable def phase (u : Operator ℝ) : ℂ := u.det.sqrt.toComplex

/-- The phase is a square root of the determinant. -/
theorem phase_mul_self (u : Operator ℝ) : u.phase * u.phase = u.toMatrix.det := by
  rw [det_toMatrix, phase, Amplitude.sqrt_mul_self]

/-- The phase of a unitary operator has length one. -/
theorem norm_phase {u : Operator ℝ} (hu : u.toMatrix ∈ unitaryGroup (Fin 2) ℂ) : ‖u.phase‖ = 1 := by
  have hdet : ‖u.toMatrix.det‖ = 1 := CStarRing.norm_of_mem_unitary (det_of_mem_unitary hu)
  rw [← phase_mul_self, norm_mul] at hdet
  exact (mul_self_eq_one_iff.1 hdet).resolve_right fun h => by linarith [norm_nonneg u.phase]

/-- Without its phase an operator has its matrix divided by the phase. -/
theorem toMatrix_withoutPhase (u : Operator ℝ) :
    u.withoutPhase.toMatrix = u.phase⁻¹ • u.toMatrix := by
  simp only [toMatrix, withoutPhase, Amplitude.toComplex_div, smul_of, smul_cons, smul_empty,
    smul_eq_mul, div_eq_inv_mul, phase]

/-- What is left without the phase has the determinant one. -/
theorem det_withoutPhase {u : Operator ℝ} (h : u.phase ≠ 0) : u.withoutPhase.toMatrix.det = 1 := by
  rw [toMatrix_withoutPhase, det_smul, Fintype.card_fin, ← phase_mul_self, sq]
  field_simp

/-- **A unitary operator is a phase times a special matrix**, the matrix that is left without the
phase. -/
theorem exists_special {u : Operator ℝ} (hu : u.toMatrix ∈ unitaryGroup (Fin 2) ℂ) :
    ∃ a b, Complex.normSq a + Complex.normSq b = 1 ∧ u.withoutPhase.toMatrix = special a b ∧
      u.toMatrix = u.phase • special a b := by
  have hnorm := norm_phase hu
  have hphase : u.phase ≠ 0 := fun h0 => by rw [h0, norm_zero] at hnorm; exact zero_ne_one hnorm
  have hdet : u.withoutPhase.toMatrix.det = 1 := det_withoutPhase hphase
  have hunitary : u.withoutPhase.toMatrix ∈ unitaryGroup (Fin 2) ℂ := by
    rw [toMatrix_withoutPhase, mem_unitaryGroup_iff, star_smul, smul_mul_smul_comm,
      mem_unitaryGroup_iff.1 hu, Complex.star_def, Complex.mul_conj, Complex.normSq_eq_norm_sq,
      norm_inv, hnorm, inv_one, one_pow, Complex.ofReal_one, one_smul]
  have hspecial := eq_special_of_det_eq_one hunitary hdet
  refine ⟨_, _, ?_, hspecial, ?_⟩
  · rw [hspecial, det_special] at hdet
    exact_mod_cast hdet
  · rw [← hspecial, toMatrix_withoutPhase, smul_smul, mul_inv_cancel₀ hphase, one_smul]

/-- An operator of determinant one has no phase to take away. -/
theorem withoutPhase_of_special {u : Operator ℝ} {a b : ℂ}
    (hab : Complex.normSq a + Complex.normSq b = 1) (h : u.toMatrix = special a b) :
    u.withoutPhase.toMatrix = special a b := by
  have hphase : u.phase = 1 := by
    rw [phase, Amplitude.toComplex_sqrt, ← det_toMatrix, h, det_special, hab, Complex.ofReal_one,
      Complex.one_cpow]
  rw [toMatrix_withoutPhase, hphase, inv_one, one_smul, h]

end Operator
end QubitSphere
