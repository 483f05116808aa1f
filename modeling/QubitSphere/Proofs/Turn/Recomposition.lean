/-
# When the turns of an operator make it up again

Without its phase a unitary operator has the rows `(a, b)` and `(-b̄, ā)`, and its Euler angles are
read off the products of these entries that `Rotation` lists for three turns:

| angle | is read off | as |
| --- | --- | --- |
| `y` | `-2 a b` | the arc sine of the real part |
| `z` | `a² - b̄²` | the angle of the conjugate |
| `x` | `-2 a b`, `|a|² - |b|²` | the angle of `(2 (|a|² - |b|²), Im (-2 a b))` |

Up to their sign `a` and `b` are determined by the three products as long as `y` is no quarter turn
(`eq_or_eq_neg_of_products`).  The angles about `y` and `z` are the right ones, so the turns make up
the operator exactly when `x` is an angle of the point `(|a|² - |b|², Im (-2 a b))`
(`Operator.eqUpToPhase_product_iff`).  The point that `x` is the angle of lies twice as far out
along its first axis, which is the same direction only on the two axes.
-/

import QubitSphere.Proofs.Turn.Rotation

open Matrix

namespace QubitSphere

/-- **The products determine the entries up to their sign.** -/
theorem eq_or_eq_neg_of_products {a b c d : ℂ} (hmul : a * b = c * d)
    (ha : Complex.normSq a = Complex.normSq c) (hb : Complex.normSq b = Complex.normSq d)
    (hsq : a ^ 2 - (starRingEnd ℂ) b ^ 2 = c ^ 2 - (starRingEnd ℂ) d ^ 2)
    (hne : a ^ 2 - (starRingEnd ℂ) b ^ 2 ≠ 0) : (a = c ∧ b = d) ∨ (a = -c ∧ b = -d) := by
  have ha' : a * (starRingEnd ℂ) a = c * (starRingEnd ℂ) c := by
    rw [Complex.mul_conj, Complex.mul_conj, ha]
  have hb' : b * (starRingEnd ℂ) b = d * (starRingEnd ℂ) d := by
    rw [Complex.mul_conj, Complex.mul_conj, hb]
  have hsq' : (starRingEnd ℂ) a ^ 2 - b ^ 2 = (starRingEnd ℂ) c ^ 2 - d ^ 2 := by
    simpa using congrArg (starRingEnd ℂ) hsq
  have hne' : (starRingEnd ℂ) a ^ 2 - b ^ 2 ≠ 0 := fun h => hne (by
    simpa using congrArg (starRingEnd ℂ) h)
  -- `a² (ā² - b²) = |a|⁴ - (a b)²`, and so for `b`
  have haa : a ^ 2 = c ^ 2 := by
    apply mul_right_cancel₀ hne'
    linear_combination (a * (starRingEnd ℂ) a + c * (starRingEnd ℂ) c) * ha' -
      (a * b + c * d) * hmul - c ^ 2 * hsq'
  have hbb : b ^ 2 = d ^ 2 := by
    apply mul_right_cancel₀ hne
    linear_combination (a * b + c * d) * hmul -
      (b * (starRingEnd ℂ) b + d * (starRingEnd ℂ) d) * hb' - d ^ 2 * hsq
  by_cases hc : c = 0
  · subst hc
    have ha0 : a = 0 := by simpa using haa
    rcases sq_eq_sq_iff_eq_or_eq_neg.1 hbb with h | h
    · exact Or.inl ⟨ha0, h⟩
    · exact Or.inr ⟨by rw [ha0, neg_zero], h⟩
  · rcases sq_eq_sq_iff_eq_or_eq_neg.1 haa with h | h
    · exact Or.inl ⟨h, mul_left_cancel₀ hc (by rw [← hmul, h])⟩
    · exact Or.inr ⟨h, mul_left_cancel₀ hc (by rw [mul_neg, ← hmul, h, neg_mul, neg_neg])⟩

/-- The points `(c, s)` and `(c / 2, s)` are seen at the same angle exactly on the two axes. -/
theorem arg_doubled_iff {r c s : ℝ} (hr : 0 < r) (hsq : r ^ 2 = (c / 2) ^ 2 + s ^ 2) :
    Real.cos (Complex.arg ⟨c, s⟩) * r = c / 2 ∧ Real.sin (Complex.arg ⟨c, s⟩) * r = s ↔
      s = 0 ∨ c = 0 := by
  have hcos := Complex.norm_mul_cos_arg ⟨c, s⟩
  have hsin := Complex.norm_mul_sin_arg ⟨c, s⟩
  have hnorm : ‖(⟨c, s⟩ : ℂ)‖ ^ 2 = c ^ 2 + s ^ 2 := by
    rw [← Complex.normSq_eq_norm_sq, Complex.normSq_mk, sq, sq]
  have hnonneg := norm_nonneg (⟨c, s⟩ : ℂ)
  dsimp only at hcos hsin
  generalize Real.cos (Complex.arg ⟨c, s⟩) = cosine at hcos ⊢
  generalize Real.sin (Complex.arg ⟨c, s⟩) = sine at hsin ⊢
  generalize ‖(⟨c, s⟩ : ℂ)‖ = n at hcos hsin hnorm hnonneg
  constructor
  · rintro ⟨h₁, h₂⟩
    -- off the axes the sines give `n = r`, and then the cosines say that `c` is its own half
    by_contra hne
    obtain ⟨hs, hc⟩ := not_or.1 hne
    have hsine : sine ≠ 0 := fun h0 => hs (by rw [← hsin, h0, mul_zero])
    have hn : n = r := mul_right_cancel₀ hsine (by rw [hsin, ← h₂, mul_comm])
    exact hc (by rw [hn, mul_comm, h₁] at hcos; linarith)
  · rintro (rfl | rfl)
    · have hn : n = 2 * r := (sq_eq_sq₀ hnonneg (by linarith)).1 (by linarith)
      rw [hn] at hcos hsin
      exact ⟨by linarith, by linarith⟩
    · have hn : n = r := (sq_eq_sq₀ hnonneg hr.le).1 (by linarith)
      rw [hn] at hcos hsin
      exact ⟨by linarith, by linarith⟩

/-- Where the third product is the one of three turns and does not vanish, the entries are those of
the turns up to their sign exactly when the other two products are. -/
theorem EulerAngles.eq_or_eq_neg_iff (angles : EulerAngles ℝ) {a b : ℂ}
    (hab : Complex.normSq a + Complex.normSq b = 1)
    (hsq : a ^ 2 - (starRingEnd ℂ) b ^ 2 = angles.first ^ 2 - (starRingEnd ℂ) angles.second ^ 2)
    (hne : a ^ 2 - (starRingEnd ℂ) b ^ 2 ≠ 0) :
    (a = angles.first ∧ b = angles.second) ∨ (a = -angles.first ∧ b = -angles.second) ↔
      -2 * (a * b) = Real.sin angles.y + Complex.I * (Real.sin angles.x * Real.cos angles.y) ∧
        Complex.normSq a - Complex.normSq b = Real.cos angles.x * Real.cos angles.y := by
  rw [← angles.first_mul_second, ← angles.normSq_first_sub_second]
  have hsum := angles.normSq_first_add_second
  constructor
  · rintro (⟨ha, hb⟩ | ⟨ha, hb⟩)
    · rw [ha, hb]; exact ⟨rfl, rfl⟩
    · rw [ha, hb, neg_mul_neg, Complex.normSq_neg, Complex.normSq_neg]; exact ⟨rfl, rfl⟩
  · rintro ⟨hmul, hdiff⟩
    exact eq_or_eq_neg_of_products (mul_left_cancel₀ (by norm_num) hmul) (by linarith) (by linarith)
      hsq hne

namespace Operator

variable (u : Operator ℝ)

/-- The four entries of an operator with a special matrix, by the two of its first row. -/
theorem entries_eq {u : Operator ℝ} {a b : ℂ} (h : u.toMatrix = special a b) :
    u.a11.toComplex = a ∧ u.a12.toComplex = b ∧
      u.a21.toComplex = -(starRingEnd ℂ) b ∧ u.a22.toComplex = (starRingEnd ℂ) a :=
  ⟨congrFun (congrFun h 0) 0, congrFun (congrFun h 0) 1, congrFun (congrFun h 1) 0,
    congrFun (congrFun h 1) 1⟩

/-- The complex number that the angle about `y` and the sine for `x` are read off. -/
noncomputable def across : ℂ :=
  u.withoutPhase.a11.toComplex * (starRingEnd ℂ) u.withoutPhase.a21.toComplex -
    u.withoutPhase.a12.toComplex * (starRingEnd ℂ) u.withoutPhase.a22.toComplex

/-- The cosine that the angle about `x` is read off. -/
noncomputable def along : ℝ :=
  Complex.normSq u.withoutPhase.a11.toComplex - Complex.normSq u.withoutPhase.a12.toComplex -
    Complex.normSq u.withoutPhase.a21.toComplex + Complex.normSq u.withoutPhase.a22.toComplex

variable {u} {a b : ℂ}

/-- The number that the turns about `y` and `x` are read off from, by the entries of the special
matrix. -/
theorem across_eq (h : u.withoutPhase.toMatrix = special a b) : u.across = -2 * (a * b) := by
  obtain ⟨h11, h12, h21, h22⟩ := entries_eq h
  rw [across, h11, h12, h21, h22, map_neg, Complex.conj_conj, Complex.conj_conj]
  ring

/-- The number beside the sine of the turn about `x`, by the entries: it is twice the cosine that
belongs there. -/
theorem along_eq (h : u.withoutPhase.toMatrix = special a b) :
    u.along = 2 * (Complex.normSq a - Complex.normSq b) := by
  obtain ⟨h11, h12, h21, h22⟩ := entries_eq h
  rw [along, h11, h12, h21, h22, Complex.normSq_neg, Complex.normSq_conj, Complex.normSq_conj]
  ring

/-- The angle about `x`, as the angle of a point. -/
theorem eulerAngles_x : u.eulerAngles.x = Complex.arg ⟨u.along, u.across.im⟩ := rfl

/-- Within its range the turn about `y` is an arcsine. -/
theorem eulerAngles_y (h₁ : -1 ≤ u.across.re) (h₂ : u.across.re ≤ 1) :
    u.eulerAngles.y = Real.arcsin u.across.re :=
  congrArg Real.arcsin (RealArith.clampToUnit_of_mem h₁ h₂)

/-- The turn about `z` is the argument of a number that the product of turns has too. -/
theorem eulerAngles_z (h : u.withoutPhase.toMatrix = special a b) :
    u.eulerAngles.z = Complex.arg ((starRingEnd ℂ) a ^ 2 - b ^ 2) := by
  obtain ⟨h11, h12, h21, h22⟩ := entries_eq h
  have hz : u.eulerAngles.z = Complex.arg
      ⟨(u.withoutPhase.a11.toComplex * (starRingEnd ℂ) u.withoutPhase.a22.toComplex +
          u.withoutPhase.a12.toComplex * (starRingEnd ℂ) u.withoutPhase.a21.toComplex).re,
        -(u.withoutPhase.a11.toComplex * (starRingEnd ℂ) u.withoutPhase.a22.toComplex -
          u.withoutPhase.a12.toComplex * (starRingEnd ℂ) u.withoutPhase.a21.toComplex).im⟩ := rfl
  rw [hz, h11, h12, h21, h22, map_neg, Complex.conj_conj, Complex.conj_conj]
  congr 1
  apply Complex.ext
  · simp [sq]; ring
  · simp [sq]; ring

/-- The three products of the entries of a special matrix lie on a sphere. -/
theorem sq_products (hab : Complex.normSq a + Complex.normSq b = 1) :
    (-2 * (a * b)).re ^ 2 + (-2 * (a * b)).im ^ 2 +
      (Complex.normSq a - Complex.normSq b) ^ 2 = 1 := by
  have h : (-2 * (a * b)).re ^ 2 + (-2 * (a * b)).im ^ 2 =
      4 * (Complex.normSq a * Complex.normSq b) := by
    simp [Complex.normSq_apply]; ring
  rw [h]
  linear_combination (Complex.normSq a + Complex.normSq b + 1) * hab

/-- The third product is as long as the first two leave room for. -/
theorem normSq_swing (hab : Complex.normSq a + Complex.normSq b = 1) :
    Complex.normSq ((starRingEnd ℂ) a ^ 2 - b ^ 2) = 1 - (-2 * (a * b)).re ^ 2 := by
  have h : Complex.normSq ((starRingEnd ℂ) a ^ 2 - b ^ 2) =
      (Complex.normSq a + Complex.normSq b) ^ 2 - (-2 * (a * b)).re ^ 2 := by
    simp [Complex.normSq_apply, sq]; ring
  rw [h, hab, one_pow]

/-- The cosine of the angle about `y`, as the length of the third product. -/
theorem cos_eulerAngles_y (hab : Complex.normSq a + Complex.normSq b = 1)
    (h : u.withoutPhase.toMatrix = special a b) (h₁ : -1 < u.across.re) (h₂ : u.across.re < 1) :
    Real.cos u.eulerAngles.y = ‖(starRingEnd ℂ) a ^ 2 - b ^ 2‖ := by
  rw [eulerAngles_y h₁.le h₂.le, Real.cos_arcsin, Complex.norm_def, normSq_swing hab, across_eq h]

/-- Short of a right angle the turn about `y` has a positive cosine. -/
theorem cos_eulerAngles_y_pos (h₁ : -1 < u.across.re) (h₂ : u.across.re < 1) :
    0 < Real.cos u.eulerAngles.y := by
  rw [eulerAngles_y h₁.le h₂.le, Real.cos_arcsin]
  exact Real.sqrt_pos.2 (by nlinarith)

/-- The angles about `y` and `z` give back the third product. -/
theorem swing_eq (hab : Complex.normSq a + Complex.normSq b = 1)
    (h : u.withoutPhase.toMatrix = special a b) (h₁ : -1 < u.across.re) (h₂ : u.across.re < 1) :
    a ^ 2 - (starRingEnd ℂ) b ^ 2 = Real.cos u.eulerAngles.y *
      (Real.cos u.eulerAngles.z - Complex.I * Real.sin u.eulerAngles.z) := by
  have hconj : a ^ 2 - (starRingEnd ℂ) b ^ 2 =
      (starRingEnd ℂ) ((starRingEnd ℂ) a ^ 2 - b ^ 2) := by simp
  rw [hconj, cos_eulerAngles_y hab h h₁ h₂, eulerAngles_z h]
  generalize (starRingEnd ℂ) a ^ 2 - b ^ 2 = w
  apply Complex.ext
  · rw [Complex.conj_re, ← Complex.norm_mul_cos_arg w]
    simp [-Complex.ofReal_sin, -Complex.ofReal_cos]
  · rw [Complex.conj_im, ← Complex.norm_mul_sin_arg w]
    simp [-Complex.ofReal_sin, -Complex.ofReal_cos]

/-- The third product does not vanish as long as `y` is no quarter turn. -/
theorem swing_ne_zero (hab : Complex.normSq a + Complex.normSq b = 1)
    (h : u.withoutPhase.toMatrix = special a b) (h₁ : -1 < u.across.re) (h₂ : u.across.re < 1) :
    a ^ 2 - (starRingEnd ℂ) b ^ 2 ≠ 0 := by
  intro h0
  have hconj : (starRingEnd ℂ) a ^ 2 - b ^ 2 = 0 := by simpa using congrArg (starRingEnd ℂ) h0
  have hpos := cos_eulerAngles_y_pos h₁ h₂
  rw [cos_eulerAngles_y hab h h₁ h₂, hconj, norm_zero] at hpos
  exact lt_irrefl 0 hpos

/-- **The turns make up the operator exactly when `x` is an angle of the point
`(|a|² - |b|², Im (-2 a b))`**, whichever angle `x` they are given. -/
theorem eqUpToPhase_product_iff (hu : u.toMatrix ∈ unitaryGroup (Fin 2) ℂ)
    (h₁ : -1 < u.across.re) (h₂ : u.across.re < 1) (x : ℝ) :
    EqUpToPhase u.toMatrix ({ u.eulerAngles with x } : EulerAngles ℝ).product ↔
      Real.cos x * Real.cos u.eulerAngles.y = u.along / 2 ∧
        Real.sin x * Real.cos u.eulerAngles.y = u.across.im := by
  obtain ⟨a, b, hab, hspecial, hphase⟩ := exists_special hu
  have hacross := across_eq hspecial
  have halong : u.along / 2 = Complex.normSq a - Complex.normSq b := by
    rw [along_eq hspecial]; ring
  have hsin : Real.sin u.eulerAngles.y = u.across.re := by
    rw [eulerAngles_y h₁.le h₂.le, Real.sin_arcsin h₁.le h₂.le]
  have hswing := swing_eq hab hspecial h₁ h₂
  have hne := swing_ne_zero hab hspecial h₁ h₂
  set angles : EulerAngles ℝ := { u.eulerAngles with x }
  rw [hphase, EulerAngles.product_eq_special,
    eqUpToPhase_special_iff (norm_phase hu) hab angles.normSq_first_add_second,
    angles.eq_or_eq_neg_iff hab (by rw [hswing, angles.sq_first_sub_second]) hne, ← hacross,
    ← halong]
  -- the real parts agree by the choice of `y`
  have hre : u.across = Real.sin u.eulerAngles.y +
      Complex.I * (Real.sin x * Real.cos u.eulerAngles.y) ↔
        Real.sin x * Real.cos u.eulerAngles.y = u.across.im := by
    rw [Complex.ext_iff, hsin]
    simp [-Complex.ofReal_sin, -Complex.ofReal_cos, eq_comm]
  rw [hre, and_comm]
  exact and_congr_left fun _ => eq_comm

/-- The cosine of the turn about `y`, squared, by what the turn about `x` is read off from. -/
theorem sq_cos_eulerAngles_y (hu : u.toMatrix ∈ unitaryGroup (Fin 2) ℂ)
    (h₁ : -1 < u.across.re) (h₂ : u.across.re < 1) :
    Real.cos u.eulerAngles.y ^ 2 = (u.along / 2) ^ 2 + u.across.im ^ 2 := by
  obtain ⟨a, b, hab, hspecial, -⟩ := exists_special hu
  have hsphere := sq_products hab
  rw [Real.cos_sq', eulerAngles_y h₁.le h₂.le, Real.sin_arcsin h₁.le h₂.le, along_eq hspecial,
    across_eq hspecial]
  linarith

/-- **With the cosine halved the turns of every unitary operator make it up again**, as long as `y`
is no quarter turn. -/
theorem eqUpToPhase_product_halved (hu : u.toMatrix ∈ unitaryGroup (Fin 2) ℂ)
    (h₁ : -1 < u.across.re) (h₂ : u.across.re < 1) :
    EqUpToPhase u.toMatrix ({ u.eulerAngles with
      x := RealArith.atan2 u.across.im (u.along / 2) } : EulerAngles ℝ).product := by
  have hnorm : ‖(⟨u.along / 2, u.across.im⟩ : ℂ)‖ = Real.cos u.eulerAngles.y := by
    rw [Complex.norm_def, Complex.normSq_mk, ← sq, ← sq, ← sq_cos_eulerAngles_y hu h₁ h₂,
      Real.sqrt_sq (cos_eulerAngles_y_pos h₁ h₂).le]
  rw [eqUpToPhase_product_iff hu h₁ h₂, ← hnorm, mul_comm, mul_comm (Real.sin _)]
  exact ⟨Complex.norm_mul_cos_arg _, Complex.norm_mul_sin_arg _⟩

/-- **The turns of a unitary operator make it up again, up to its phase, exactly when the angle
about `x` is read off a point on one of the two axes**, as long as `y` is no quarter turn. -/
theorem eqUpToPhase_product_eulerAngles_iff (hu : u.toMatrix ∈ unitaryGroup (Fin 2) ℂ)
    (h₁ : -1 < u.across.re) (h₂ : u.across.re < 1) :
    EqUpToPhase u.toMatrix u.eulerAngles.product ↔ u.across.im = 0 ∨ u.along = 0 := by
  refine (eqUpToPhase_product_iff hu h₁ h₂ u.eulerAngles.x).trans ?_
  rw [eulerAngles_x]
  exact arg_doubled_iff (cos_eulerAngles_y_pos h₁ h₂) (sq_cos_eulerAngles_y hu h₁ h₂)

/-- A turn about `z` whose half angle has the tangent `3 / 4`. -/
noncomputable def turnAboutZ : Operator ℝ := ⟨⟨4 / 5, -(3 / 5)⟩, ⟨0, 0⟩, ⟨0, 0⟩, ⟨4 / 5, 3 / 5⟩⟩

/-- A turn about `x` whose half angle has the tangent `3 / 4`. -/
noncomputable def turnAboutX : Operator ℝ := ⟨⟨4 / 5, 0⟩, ⟨0, -(3 / 5)⟩, ⟨0, -(3 / 5)⟩, ⟨4 / 5, 0⟩⟩

theorem toMatrix_turnAboutZ : turnAboutZ.toMatrix = special ⟨4 / 5, -(3 / 5)⟩ 0 := by
  ext i j
  fin_cases i <;> fin_cases j <;> apply Complex.ext <;>
    simp [toMatrix, special, turnAboutZ, Amplitude.toComplex]

theorem toMatrix_turnAboutX : turnAboutX.toMatrix = special ⟨4 / 5, 0⟩ ⟨0, -(3 / 5)⟩ := by
  ext i j
  fin_cases i <;> fin_cases j <;> apply Complex.ext <;>
    simp [toMatrix, special, turnAboutX, Amplitude.toComplex]

/-- A turn about `z` alone is recomposed. -/
theorem eqUpToPhase_product_turnAboutZ :
    turnAboutZ.toMatrix ∈ unitaryGroup (Fin 2) ℂ ∧ -1 < turnAboutZ.across.re ∧
      turnAboutZ.across.re < 1 ∧ turnAboutZ.across.im = 0 ∧
      EqUpToPhase turnAboutZ.toMatrix turnAboutZ.eulerAngles.product := by
  have hab : Complex.normSq ⟨4 / 5, -(3 / 5)⟩ + Complex.normSq 0 = 1 := by
    rw [Complex.normSq_mk, map_zero]; norm_num
  have hacross := across_eq (withoutPhase_of_special hab toMatrix_turnAboutZ)
  rw [mul_zero, mul_zero] at hacross
  have hunitary : turnAboutZ.toMatrix ∈ unitaryGroup (Fin 2) ℂ :=
    toMatrix_turnAboutZ ▸ special_mem_unitaryGroup hab
  have h₁ : -1 < turnAboutZ.across.re := by rw [hacross, Complex.zero_re]; norm_num
  have h₂ : turnAboutZ.across.re < 1 := by rw [hacross, Complex.zero_re]; norm_num
  have him : turnAboutZ.across.im = 0 := by rw [hacross, Complex.zero_im]
  exact ⟨hunitary, h₁, h₂, him,
    (eqUpToPhase_product_eulerAngles_iff hunitary h₁ h₂).2 (Or.inl him)⟩

/-- **A turn about `x` alone is not made up by its own turns:** its angle has the tangent `24 / 7`,
and it is read as an angle of the tangent `24 / 14`. -/
theorem not_eqUpToPhase_product_turnAboutX :
    turnAboutX.toMatrix ∈ unitaryGroup (Fin 2) ℂ ∧ -1 < turnAboutX.across.re ∧
      turnAboutX.across.re < 1 ∧
      ¬ EqUpToPhase turnAboutX.toMatrix turnAboutX.eulerAngles.product := by
  have hab : Complex.normSq ⟨4 / 5, 0⟩ + Complex.normSq ⟨0, -(3 / 5)⟩ = 1 := by
    rw [Complex.normSq_mk, Complex.normSq_mk]; norm_num
  have hspecial := withoutPhase_of_special hab toMatrix_turnAboutX
  have hunitary : turnAboutX.toMatrix ∈ unitaryGroup (Fin 2) ℂ :=
    toMatrix_turnAboutX ▸ special_mem_unitaryGroup hab
  have hre : turnAboutX.across.re = 0 := by rw [across_eq hspecial]; simp
  have him : turnAboutX.across.im = 24 / 25 := by rw [across_eq hspecial]; norm_num
  have halong : turnAboutX.along = 14 / 25 := by
    rw [along_eq hspecial, Complex.normSq_mk, Complex.normSq_mk]; norm_num
  have h₁ : -1 < turnAboutX.across.re := by rw [hre]; norm_num
  have h₂ : turnAboutX.across.re < 1 := by rw [hre]; norm_num
  refine ⟨hunitary, h₁, h₂, fun h => ?_⟩
  have hangle := (eqUpToPhase_product_iff hunitary h₁ h₂ turnAboutX.eulerAngles.x).1 h
  rcases (arg_doubled_iff (cos_eulerAngles_y_pos h₁ h₂)
    (sq_cos_eulerAngles_y hunitary h₁ h₂)).1 hangle with h0 | h0
  · rw [him] at h0; norm_num at h0
  · rw [halong] at h0; norm_num at h0

end Operator
end QubitSphere
