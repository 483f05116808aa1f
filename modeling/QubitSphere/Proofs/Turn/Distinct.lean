/-
# Which operators have the same angles

As long as `y` is no quarter turn, the angles of a unitary operator determine it up to its phase
(`Operator.eqUpToPhase_of_eulerAngles_eq`).  The angles about `y` and `z` give back two of the three
products that its entries are determined by.  The angle about `x` is read off a point that lies
twice as far out along its first axis as it should, but it still tells such points apart
(`eq_of_arg_doubled_eq`), and so it gives back the third.

Where `y` is a quarter turn, the other two angles are both read off the point zero, which has the
angle zero (`Operator.eulerAngles_of_quarter_turn`).  A quarter turn about `y` after any turn about
`z` has the same angles as the quarter turn alone, so a whole circle of operators has them
(`Operator.eulerAngles_eq_iff`).
-/

import QubitSphere.Proofs.Turn.Recomposition
import QubitSphere.Proofs.Turn.Scale

open Matrix

namespace QubitSphere

/-- Points of one ellipse that are seen at the same angle are equal. -/
theorem eq_of_arg_doubled_eq {c s c' s' : ℝ} (harg : Complex.arg ⟨c, s⟩ = Complex.arg ⟨c', s'⟩)
    (hsq : (c / 2) ^ 2 + s ^ 2 = (c' / 2) ^ 2 + s' ^ 2) : c = c' ∧ s = s' := by
  have hcos := Complex.norm_mul_cos_arg ⟨c, s⟩
  have hsin := Complex.norm_mul_sin_arg ⟨c, s⟩
  have hcos' := Complex.norm_mul_cos_arg ⟨c', s'⟩
  have hsin' := Complex.norm_mul_sin_arg ⟨c', s'⟩
  have hnonneg := norm_nonneg (⟨c, s⟩ : ℂ)
  have hnonneg' := norm_nonneg (⟨c', s'⟩ : ℂ)
  have hone := Real.sin_sq_add_cos_sq (Complex.arg ⟨c, s⟩)
  rw [← harg] at hcos' hsin'
  dsimp only at hcos hsin hcos' hsin'
  generalize Real.cos (Complex.arg ⟨c, s⟩) = cosine at hcos hcos' hone
  generalize Real.sin (Complex.arg ⟨c, s⟩) = sine at hsin hsin' hone
  generalize ‖(⟨c, s⟩ : ℂ)‖ = n at hcos hsin hnonneg
  generalize ‖(⟨c', s'⟩ : ℂ)‖ = n' at hcos' hsin' hnonneg'
  -- on one ray the ellipse has a single point
  have hpos : 0 < (cosine / 2) ^ 2 + sine ^ 2 := by nlinarith [sq_nonneg sine]
  have hnorm : n ^ 2 = n' ^ 2 := by
    refine mul_right_cancel₀ hpos.ne' ?_
    rw [← hcos, ← hsin, ← hcos', ← hsin'] at hsq
    linear_combination hsq
  have hn : n = n' := (sq_eq_sq₀ hnonneg hnonneg').1 hnorm
  exact ⟨by rw [← hcos, ← hcos', hn], by rw [← hsin, ← hsin', hn]⟩

/-- Two matrices that agree up to a phase still do if one of them is multiplied by another phase. -/
theorem EqUpToPhase.smul_right {M N : Matrix (Fin 2) (Fin 2) ℂ} (h : EqUpToPhase M N) {s : ℂ}
    (hs : ‖s‖ = 1) : EqUpToPhase M (s • N) := by
  obtain ⟨φ, hφ, rfl⟩ := h
  have hs0 : s ≠ 0 := norm_ne_zero_iff.1 (by rw [hs]; exact one_ne_zero)
  refine ⟨φ * s⁻¹, by rw [norm_mul, norm_inv, hφ, hs, inv_one, mul_one], ?_⟩
  rw [smul_smul, inv_mul_cancel_right₀ hs0]

attribute [ext] EulerAngles

namespace Operator

variable {u w : Operator ℝ}

/-- For a unitary operator the number under the arcsine is between -1 and 1. -/
theorem abs_across_re_le (hu : u.toMatrix ∈ unitaryGroup (Fin 2) ℂ) : |u.across.re| ≤ 1 := by
  obtain ⟨a, b, hab, hspecial, -⟩ := exists_special hu
  have hsphere := sq_products hab
  rw [← across_eq hspecial] at hsphere
  have him := sq_nonneg u.across.im
  have hdiff := sq_nonneg (Complex.normSq a - Complex.normSq b)
  exact abs_le_one_iff_mul_self_le_one.2 (by nlinarith)

/-- The turn about `y` of a unitary operator has the sine that it is read off from. -/
theorem sin_eulerAngles_y (hu : u.toMatrix ∈ unitaryGroup (Fin 2) ℂ) :
    Real.sin u.eulerAngles.y = u.across.re := by
  obtain ⟨h₁, h₂⟩ := abs_le.1 (abs_across_re_le hu)
  rw [eulerAngles_y h₁ h₂, Real.sin_arcsin h₁ h₂]

/-- **A quarter turn about `y` has no angles about `z` and `x`.** -/
theorem eulerAngles_of_quarter_turn (hu : u.toMatrix ∈ unitaryGroup (Fin 2) ℂ)
    (h : |u.across.re| = 1) : u.eulerAngles = ⟨0, Real.arcsin u.across.re, 0⟩ := by
  obtain ⟨a, b, hab, hspecial, -⟩ := exists_special hu
  have hsq : u.across.re ^ 2 = 1 := by rw [← sq_abs, h, one_pow]
  -- the sine of `y` is all of the length, so the other products vanish
  have hsphere := sq_products hab
  have hswing := normSq_swing hab
  rw [← across_eq hspecial, hsq] at hsphere hswing
  have hz : u.eulerAngles.z = 0 := by
    rw [eulerAngles_z hspecial, Complex.normSq_eq_zero.1 (hswing.trans (sub_self 1)),
      Complex.arg_zero]
  have hx : u.eulerAngles.x = 0 := by
    have him : u.across.im = 0 := by
      refine pow_eq_zero_iff two_ne_zero |>.1 ?_
      nlinarith [sq_nonneg u.across.im, sq_nonneg (Complex.normSq a - Complex.normSq b)]
    have halong : u.along = 0 := by
      have hdiff : Complex.normSq a - Complex.normSq b = 0 := by
        refine pow_eq_zero_iff two_ne_zero |>.1 ?_
        nlinarith [sq_nonneg u.across.im]
      rw [along_eq hspecial, hdiff, mul_zero]
    rw [eulerAngles_x, him, halong]
    exact Complex.arg_zero
  obtain ⟨h₁, h₂⟩ := abs_le.1 h.le
  exact EulerAngles.ext hz (eulerAngles_y h₁ h₂) hx

/-- **As long as `y` is no quarter turn, the angles determine the operator up to its phase.** -/
theorem eqUpToPhase_of_eulerAngles_eq (hu : u.toMatrix ∈ unitaryGroup (Fin 2) ℂ)
    (hw : w.toMatrix ∈ unitaryGroup (Fin 2) ℂ) (h : u.eulerAngles = w.eulerAngles)
    (hne : |u.across.re| ≠ 1) : EqUpToPhase u.toMatrix w.toMatrix := by
  obtain ⟨a, b, hab, hspecial, hphase⟩ := exists_special hu
  obtain ⟨c, d, hcd, hspecial', hphase'⟩ := exists_special hw
  have hre : u.across.re = w.across.re := by
    rw [← sin_eulerAngles_y hu, ← sin_eulerAngles_y hw, h]
  obtain ⟨h₁, h₂⟩ := abs_lt.1 (lt_of_le_of_ne (abs_across_re_le hu) hne)
  have h₁' : -1 < w.across.re := hre ▸ h₁
  have h₂' : w.across.re < 1 := hre ▸ h₂
  -- `y` and `z` give back the third product, which does not vanish
  have hswing := swing_eq hab hspecial h₁ h₂
  have hswing' : a ^ 2 - (starRingEnd ℂ) b ^ 2 = c ^ 2 - (starRingEnd ℂ) d ^ 2 := by
    rw [hswing, swing_eq hcd hspecial' h₁' h₂', h]
  have hswing0 := swing_ne_zero hab hspecial h₁ h₂
  -- `x` gives back the rest
  have hellipse : (u.along / 2) ^ 2 + u.across.im ^ 2 = (w.along / 2) ^ 2 + w.across.im ^ 2 := by
    rw [← sq_cos_eulerAngles_y hu h₁ h₂, ← sq_cos_eulerAngles_y hw h₁' h₂', h]
  have hx : Complex.arg ⟨u.along, u.across.im⟩ = Complex.arg ⟨w.along, w.across.im⟩ := by
    rw [← eulerAngles_x, ← eulerAngles_x, h]
  obtain ⟨halong, him⟩ := eq_of_arg_doubled_eq hx hellipse
  have hacross : u.across = w.across := Complex.ext hre him
  rw [across_eq hspecial, across_eq hspecial'] at hacross
  rw [along_eq hspecial, along_eq hspecial'] at halong
  have hentries := eq_or_eq_neg_of_products (mul_left_cancel₀ (by norm_num) hacross)
    (by linarith) (by linarith) hswing' hswing0
  rw [hphase, hphase']
  exact ((eqUpToPhase_special_iff (norm_phase hu) hab hcd).2 hentries).smul_right (norm_phase hw)

/-- **Unitary operators have the same angles exactly if they are equal up to their phase, or are
both quarter turns about `y` in the same sense, after whatever turn about `z`.** -/
theorem eulerAngles_eq_iff (hu : u.toMatrix ∈ unitaryGroup (Fin 2) ℂ)
    (hw : w.toMatrix ∈ unitaryGroup (Fin 2) ℂ) :
    u.eulerAngles = w.eulerAngles ↔
      EqUpToPhase u.toMatrix w.toMatrix ∨ (|u.across.re| = 1 ∧ u.across.re = w.across.re) := by
  constructor
  · intro h
    by_cases hquarter : |u.across.re| = 1
    · exact .inr ⟨hquarter, by rw [← sin_eulerAngles_y hu, ← sin_eulerAngles_y hw, h]⟩
    · exact .inl (eqUpToPhase_of_eulerAngles_eq hu hw h hquarter)
  · rintro (⟨φ, hφ, h⟩ | ⟨hquarter, hre⟩)
    · have hφ0 : φ ≠ 0 := norm_ne_zero_iff.1 (by rw [hφ]; exact one_ne_zero)
      exact eulerAngles_eq_of_smul hφ0 h
    · rw [eulerAngles_of_quarter_turn hu hquarter, eulerAngles_of_quarter_turn hw (hre ▸ hquarter),
        hre]

/-- **Two special matrices are different up to a phase** if their first entries are neither equal
nor opposite, since the only phases between special matrices are 1 and -1. -/
theorem not_eqUpToPhase_of_special {a b c d : ℂ} (hu : u.toMatrix = special a b)
    (hw : w.toMatrix = special c d) (hab : Complex.normSq a + Complex.normSq b = 1)
    (hcd : Complex.normSq c + Complex.normSq d = 1) (h : a ≠ c) (h' : a ≠ -c) :
    ¬ EqUpToPhase u.toMatrix w.toMatrix := by
  rw [hu, hw, ← one_smul ℂ (special a b), eqUpToPhase_special_iff norm_one hab hcd]
  rintro (⟨ha, -⟩ | ⟨ha, -⟩)
  · exact h ha
  · exact h' ha

/-- The angles of a turn about `z` and of a turn about `x` differ. -/
theorem eulerAngles_turnAboutZ_ne_turnAboutX :
    turnAboutZ.toMatrix ∈ unitaryGroup (Fin 2) ℂ ∧ turnAboutX.toMatrix ∈ unitaryGroup (Fin 2) ℂ ∧
      turnAboutZ.eulerAngles ≠ turnAboutX.eulerAngles := by
  have hab : Complex.normSq ⟨4 / 5, -(3 / 5)⟩ + Complex.normSq 0 = 1 := by
    rw [Complex.normSq_mk, map_zero]; norm_num
  have hcd : Complex.normSq ⟨4 / 5, 0⟩ + Complex.normSq ⟨0, -(3 / 5)⟩ = 1 := by
    rw [Complex.normSq_mk, Complex.normSq_mk]; norm_num
  have hz : turnAboutZ.toMatrix ∈ unitaryGroup (Fin 2) ℂ :=
    toMatrix_turnAboutZ ▸ special_mem_unitaryGroup hab
  have hx : turnAboutX.toMatrix ∈ unitaryGroup (Fin 2) ℂ :=
    toMatrix_turnAboutX ▸ special_mem_unitaryGroup hcd
  have hre : turnAboutZ.across.re = 0 := by
    rw [across_eq (withoutPhase_of_special hab toMatrix_turnAboutZ), mul_zero, mul_zero,
      Complex.zero_re]
  refine ⟨hz, hx, fun h => ?_⟩
  rcases (eulerAngles_eq_iff hz hx).1 h with hphase | ⟨hquarter, -⟩
  · refine not_eqUpToPhase_of_special toMatrix_turnAboutZ toMatrix_turnAboutX hab hcd ?_ ?_ hphase
    · intro heq; have him := congrArg Complex.im heq; norm_num at him
    · intro heq; have him := congrArg Complex.im heq; norm_num at him
  · rw [hre, abs_zero] at hquarter
    exact zero_ne_one hquarter

/-- A quarter turn about `y` after a quarter turn about `z`, whose sense is the sign `s`. -/
noncomputable def quarterTurns (s : ℝ) : Operator ℝ :=
  ⟨⟨1 / 2, -(s / 2)⟩, ⟨-(1 / 2), -(s / 2)⟩, ⟨1 / 2, -(s / 2)⟩, ⟨1 / 2, s / 2⟩⟩

/-- The matrix of both gates is special. -/
theorem toMatrix_quarterTurns (s : ℝ) :
    (quarterTurns s).toMatrix = special ⟨1 / 2, -(s / 2)⟩ ⟨-(1 / 2), -(s / 2)⟩ := by
  ext i j
  fin_cases i <;> fin_cases j <;> apply Complex.ext <;>
    simp [toMatrix, special, quarterTurns, Amplitude.toComplex]

/-- The first row of both gates has length one. -/
theorem normSq_quarterTurns {s : ℝ} (hs : s ^ 2 = 1) :
    Complex.normSq ⟨1 / 2, -(s / 2)⟩ + Complex.normSq ⟨-(1 / 2), -(s / 2)⟩ = 1 := by
  rw [Complex.normSq_mk, Complex.normSq_mk]
  linear_combination hs / 2

/-- Both gates turn by a right angle about `y`. -/
theorem across_re_quarterTurns {s : ℝ} (hs : s ^ 2 = 1) : (quarterTurns s).across.re = 1 := by
  rw [across_eq (withoutPhase_of_special (normSq_quarterTurns hs) (toMatrix_quarterTurns s))]
  simp
  linear_combination hs / 2

/-- **Two quarter turns about `z` in opposite senses are different, but each followed by the same
quarter turn about `y` they have the same angles.** -/
theorem eulerAngles_quarterTurns_eq :
    (quarterTurns 1).toMatrix ∈ unitaryGroup (Fin 2) ℂ ∧
      (quarterTurns (-1)).toMatrix ∈ unitaryGroup (Fin 2) ℂ ∧
      (quarterTurns 1).eulerAngles = (quarterTurns (-1)).eulerAngles ∧
      ¬ EqUpToPhase (quarterTurns 1).toMatrix (quarterTurns (-1)).toMatrix := by
  have hone : (1 : ℝ) ^ 2 = 1 := one_pow 2
  have hneg : (-1 : ℝ) ^ 2 = 1 := neg_one_sq
  have hunitary {s : ℝ} (hs : s ^ 2 = 1) : (quarterTurns s).toMatrix ∈ unitaryGroup (Fin 2) ℂ :=
    toMatrix_quarterTurns s ▸ special_mem_unitaryGroup (normSq_quarterTurns hs)
  have hangles {s : ℝ} (hs : s ^ 2 = 1) :
      (quarterTurns s).eulerAngles = ⟨0, Real.arcsin 1, 0⟩ := by
    have hre := across_re_quarterTurns hs
    rw [eulerAngles_of_quarter_turn (hunitary hs) (by rw [hre, abs_one]), hre]
  refine ⟨hunitary hone, hunitary hneg, (hangles hone).trans (hangles hneg).symm, ?_⟩
  refine not_eqUpToPhase_of_special (toMatrix_quarterTurns 1) (toMatrix_quarterTurns (-1))
    (normSq_quarterTurns hone) (normSq_quarterTurns hneg) ?_ ?_
  · intro heq; have him := congrArg Complex.im heq; norm_num at him
  · intro heq; have hre := congrArg Complex.re heq; norm_num at hre

end Operator
end QubitSphere
