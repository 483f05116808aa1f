/-
# Drawn directions tell states apart

Two kets are one state if they differ by a phase alone.  A direction forgets the phase and keeps all
else, since the Bloch vector of the amplitudes `α` and `β` has the coordinates

| coordinate | is |
| --- | --- |
| `x + i y` | `2 ᾱ β` |
| `z` | `|α|² - |β|²` |

The moduli of both amplitudes and the product `ᾱ β` determine them up to a common phase
(`exists_phase_iff`): it is the phase between the first amplitudes, or between the second ones if
the first are zero.  Of a normalized ket the third coordinate alone gives the moduli
(`Ket.blochVector_eq_iff_sameState`).

No basis loses any of this, since each only moves the coordinates to other places and may change
their signs (`Basis.sceneDirection_injective`).
-/

import QubitSphere.Proofs.Ket.Direction

namespace QubitSphere

attribute [ext] Vector3

/-! ### Amplitudes up to a common phase -/

/-- The quotient of two numbers of the same length is a phase. -/
theorem norm_div_eq_one {z w : ℂ} (h : Complex.normSq z = Complex.normSq w) (hw : w ≠ 0) :
    ‖z / w‖ = 1 := by
  have hnorm : ‖z‖ = ‖w‖ := by
    rw [Complex.normSq_eq_norm_sq, Complex.normSq_eq_norm_sq] at h
    exact (sq_eq_sq₀ (norm_nonneg z) (norm_nonneg w)).1 h
  rw [norm_div, hnorm, div_self (norm_ne_zero_iff.2 hw)]

/-- A phase keeps the length of a number. -/
theorem normSq_mul_of_norm_eq_one {φ : ℂ} (hφ : ‖φ‖ = 1) (z : ℂ) :
    Complex.normSq (φ * z) = Complex.normSq z := by
  rw [map_mul, Complex.normSq_eq_norm_sq φ, hφ, one_pow, one_mul]

/-- **Two pairs of amplitudes differ by a common phase exactly if they have the same moduli and the
same product, the first factor conjugated.** -/
theorem exists_phase_iff {a b c d : ℂ} :
    (∃ φ : ℂ, ‖φ‖ = 1 ∧ a = φ * c ∧ b = φ * d) ↔
      Complex.normSq a = Complex.normSq c ∧ Complex.normSq b = Complex.normSq d ∧
        (starRingEnd ℂ) a * b = (starRingEnd ℂ) c * d := by
  constructor
  · rintro ⟨φ, hφ, rfl, rfl⟩
    have hone : φ * (starRingEnd ℂ) φ = 1 := by
      rw [Complex.mul_conj, Complex.normSq_eq_norm_sq, hφ, one_pow, Complex.ofReal_one]
    refine ⟨normSq_mul_of_norm_eq_one hφ c, normSq_mul_of_norm_eq_one hφ d, ?_⟩
    rw [map_mul]
    linear_combination ((starRingEnd ℂ) c * d) * hone
  · rintro ⟨hac, hbd, hmul⟩
    by_cases hc : c = 0
    · -- no phase is left between the first amplitudes, so it is read off the second
      subst hc
      have ha : a = 0 := Complex.normSq_eq_zero.1 (hac.trans (map_zero _))
      by_cases hd : d = 0
      · subst hd
        have hb : b = 0 := Complex.normSq_eq_zero.1 (hbd.trans (map_zero _))
        exact ⟨1, norm_one, by rw [ha, mul_zero], by rw [hb, mul_zero]⟩
      · exact ⟨b / d, norm_div_eq_one hbd hd, by rw [ha, mul_zero], (div_mul_cancel₀ b hd).symm⟩
    · refine ⟨a / c, norm_div_eq_one hac hc, (div_mul_cancel₀ a hc).symm, ?_⟩
      -- the quotient of the first amplitudes is the phase, and the product gives the second ones
      have hmoduli : a * (starRingEnd ℂ) a = c * (starRingEnd ℂ) c := by
        rw [Complex.mul_conj, Complex.mul_conj, hac]
      have hcross : c * b = a * d := by
        apply mul_left_cancel₀ ((map_ne_zero (starRingEnd ℂ)).2 hc)
        linear_combination a * hmul - b * hmoduli
      rw [div_mul_eq_mul_div, ← hcross, mul_div_cancel_left₀ b hc]

namespace Ket

/-- Whether a ket is another one times a complex number of modulus one. -/
def SameState (ket ket' : Ket ℝ) : Prop :=
  ∃ φ : ℂ, ‖φ‖ = 1 ∧ ket.zero.toComplex = φ * ket'.zero.toComplex ∧
    ket.one.toComplex = φ * ket'.one.toComplex

/-! ### Bloch vectors -/

/-- The first two coordinates of the Bloch vector. -/
theorem conj_zero_mul_one (ket : Ket ℝ) :
    (starRingEnd ℂ) ket.zero.toComplex * ket.one.toComplex =
      ⟨ket.blochVector.x / 2, ket.blochVector.y / 2⟩ := by
  rw [blochVector_eq]
  apply Complex.ext
  · simp
  · simp
    ring

/-- The third coordinate of the Bloch vector. -/
theorem blochVector_z (ket : Ket ℝ) : ket.blochVector.z = ket.zero.normSq - ket.one.normSq := rfl

/-- Two states have the same direction exactly if their cross terms agree and the differences of
their weights do. -/
theorem blochVector_eq_blochVector_iff {ket ket' : Ket ℝ} :
    ket.blochVector = ket'.blochVector ↔
      (starRingEnd ℂ) ket.zero.toComplex * ket.one.toComplex =
          (starRingEnd ℂ) ket'.zero.toComplex * ket'.one.toComplex ∧
        ket.zero.normSq - ket.one.normSq = ket'.zero.normSq - ket'.one.normSq := by
  rw [conj_zero_mul_one, conj_zero_mul_one, ← blochVector_z, ← blochVector_z, Complex.ext_iff]
  constructor
  · intro h
    rw [h]
    exact ⟨⟨rfl, rfl⟩, rfl⟩
  · rintro ⟨⟨hx, hy⟩, hz⟩
    have hx' : ket.blochVector.x = ket'.blochVector.x := (div_left_inj' two_ne_zero).1 hx
    have hy' : ket.blochVector.y = ket'.blochVector.y := (div_left_inj' two_ne_zero).1 hy
    exact Vector3.ext hx' hy' hz

/-- **Normalized kets have the same Bloch vector exactly if they are one state.** -/
theorem blochVector_eq_iff_sameState {ket ket' : Ket ℝ}
    (h : ket.zero.normSq + ket.one.normSq = 1) (h' : ket'.zero.normSq + ket'.one.normSq = 1) :
    ket.blochVector = ket'.blochVector ↔ ket.SameState ket' := by
  unfold SameState
  rw [blochVector_eq_blochVector_iff, exists_phase_iff]
  simp only [Amplitude.normSq_toComplex]
  constructor
  · rintro ⟨hmul, hz⟩
    exact ⟨by linarith, by linarith, hmul⟩
  · rintro ⟨hzero, hone, hmul⟩
    exact ⟨hmul, by rw [hzero, hone]⟩

end Ket

/-! ### Directions -/

/-- The square of the length of a vector. -/
def Vector3.lengthSq (v : Vector3 ℝ) : ℝ := v.x ^ 2 + v.y ^ 2 + v.z ^ 2

/-- **A Bloch vector is as long as its ket is, squared.** -/
theorem Ket.lengthSq_blochVector (ket : Ket ℝ) :
    ket.blochVector.lengthSq = (ket.zero.normSq + ket.one.normSq) ^ 2 := by
  rw [Amplitude.normSq_eq, Amplitude.normSq_eq, blochVector_eq, Vector3.lengthSq]
  ring

namespace Basis

/-- The scene keeps the length of a direction, as it only permutes and negates coordinates. -/
theorem lengthSq_sceneDirection (basis : Basis) (v : Vector3 ℝ) :
    (basis.sceneDirection v).lengthSq = v.lengthSq := by
  cases basis <;> simp only [sceneDirection, Vector3.lengthSq] <;> ring

/-- The scene keeps different directions apart. -/
theorem sceneDirection_injective (basis : Basis) :
    Function.Injective (basis.sceneDirection : Vector3 ℝ → Vector3 ℝ) := by
  intro v w h
  cases basis with
  | computational =>
    obtain ⟨hx, hz, hy⟩ := Vector3.mk.inj h
    exact Vector3.ext hx hy hz
  | hadamard =>
    obtain ⟨hz, hx, hy⟩ := Vector3.mk.inj h
    exact Vector3.ext hx (neg_injective hy) hz
  | pauliY =>
    obtain ⟨hy, hx, hz⟩ := Vector3.mk.inj h
    exact Vector3.ext (neg_injective hx) hy hz

/-- **Whatever the basis, a direction is as long as its ket is, squared, and normalized kets are
drawn in the same direction exactly if they are one state.** -/
theorem sceneDirection_faithful (basis : Basis) :
    (∀ ket : Ket ℝ, (basis.sceneDirection ket.blochVector).lengthSq =
        (ket.zero.normSq + ket.one.normSq) ^ 2) ∧
      ∀ ket ket' : Ket ℝ, ket.zero.normSq + ket.one.normSq = 1 →
        ket'.zero.normSq + ket'.one.normSq = 1 →
          (basis.sceneDirection ket.blochVector = basis.sceneDirection ket'.blochVector ↔
            ket.SameState ket') := by
  constructor
  · intro ket
    rw [lengthSq_sceneDirection, Ket.lengthSq_blochVector]
  · intro ket ket' h h'
    rw [basis.sceneDirection_injective.eq_iff, Ket.blochVector_eq_iff_sameState h h']

/-- Unequal parts, a quarter phase apart. -/
noncomputable def tiltedKet : Ket ℝ := ⟨⟨Real.cos 1, 0⟩, ⟨0, Real.sin 1⟩⟩

/-- The same parts, both turned by a quarter phase. -/
noncomputable def turnedKet : Ket ℝ := ⟨⟨0, Real.cos 1⟩, ⟨-Real.sin 1, 0⟩⟩

/-- The same parts, without a phase between them. -/
noncomputable def levelKet : Ket ℝ := ⟨⟨Real.cos 1, 0⟩, ⟨Real.sin 1, 0⟩⟩

/-- A phase of both parts does not show, and a phase between them does. -/
theorem sceneDirection_tiltedKet :
    pauliY.sceneDirection tiltedKet.blochVector = pauliY.sceneDirection turnedKet.blochVector ∧
      pauliY.sceneDirection tiltedKet.blochVector ≠ pauliY.sceneDirection levelKet.blochVector := by
  have htilted : tiltedKet.zero.normSq + tiltedKet.one.normSq = 1 := by
    simp [tiltedKet, Amplitude.normSq_eq]
  have hturned : turnedKet.zero.normSq + turnedKet.one.normSq = 1 := by
    simp [turnedKet, Amplitude.normSq_eq]
  have hlevel : levelKet.zero.normSq + levelKet.one.normSq = 1 := by
    simp [levelKet, Amplitude.normSq_eq]
  have hfaithful := pauliY.sceneDirection_faithful.2
  constructor
  · refine (hfaithful _ _ htilted hturned).2 ⟨-Complex.I, by simp, ?_, ?_⟩ <;>
      apply Complex.ext <;> simp [tiltedKet, turnedKet]
  · intro h
    obtain ⟨φ, -, hzero, hone⟩ := (hfaithful _ _ htilted hlevel).1 h
    have hne : levelKet.zero.toComplex ≠ 0 := fun h0 =>
      Real.cos_one_pos.ne' (congrArg Complex.re h0)
    rw [(mul_eq_right₀ hne).1 hzero.symm, one_mul] at hone
    have hsin : 0 < Real.sin 1 := Real.sin_pos_of_pos_of_le_one one_pos le_rfl
    exact hsin.ne' (congrArg Complex.im hone)

end Basis
end QubitSphere
