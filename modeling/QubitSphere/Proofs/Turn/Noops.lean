/-
# Operators that turn nothing

A turn does nothing exactly if the angle that it is counted from is zero, whatever its sign
(`Operator.isNoop_iff_of_mem_turns`).  So all turns of an operator do nothing exactly if its three
angles are those of the identity, which are zero (`Operator.eulerAngles_identity`).

Where the angle about `y` is zero there is no quarter turn about `y`, and there the angles determine
an operator up to its phase.  So the unitary operators without a turn that does something are the
multiples of the identity and no others (`Operator.forall_isNoop_turns_iff`).
-/

import QubitSphere.Proofs.Turn.Distinct
import QubitSphere.Proofs.Turn.Scene

open Matrix

namespace QubitSphere

/-- A turn does nothing if it goes through zero revolutions. -/
theorem Turn.isNoop_iff_revolutions {turn : Turn ℝ} :
    turn.isNoop = true ↔ turn.revolutions = 0 := by
  unfold isNoop
  exact RealArith.isZero_iff

theorem Sense.sign_ne_zero (sense : Sense) : sense.sign ≠ 0 := by
  cases sense <;> norm_num [Sense.sign]

namespace Operator

variable {u : Operator ℝ} {gate : String}

/-- **A turn of an operator does nothing exactly if the angle about its axis is zero.** -/
theorem isNoop_iff_of_mem_turns {turn : Turn ℝ} (h : turn ∈ u.turns gate) :
    turn.isNoop = true ↔ u.eulerAngles.about turn.axis = 0 := by
  have hangle := revolutions_of_mem_turns h
  have hsign := neg_ne_zero.2 turn.axis.sense.sign_ne_zero
  have hturn : (2 * Real.pi : ℝ) ≠ 0 := Real.two_pi_pos.ne'
  rw [Turn.isNoop_iff_revolutions]
  constructor
  · intro hzero
    rw [hzero, zero_mul] at hangle
    exact (mul_eq_zero.1 hangle.symm).resolve_left hsign
  · intro hzero
    rw [hzero, mul_zero] at hangle
    exact (mul_eq_zero.1 hangle).resolve_right hturn

/-- The turns of an operator go about all three axes, so they all do nothing only if all three
angles are zero. -/
theorem forall_isNoop_turns_iff_eulerAngles :
    (∀ turn ∈ u.turns gate, turn.isNoop = true) ↔ u.eulerAngles = ⟨0, 0, 0⟩ := by
  have hall : (∀ turn ∈ u.turns gate, turn.isNoop = true) ↔
      ∀ turn ∈ u.turns gate, u.eulerAngles.about turn.axis = 0 :=
    forall₂_congr fun _ h => isNoop_iff_of_mem_turns h
  rw [hall, turns, List.forall_mem_cons, List.forall_mem_cons, List.forall_mem_singleton]
  constructor
  · rintro ⟨hz, hy, hx⟩
    exact EulerAngles.ext hz hy hx
  · intro h
    simp [h, EulerAngles.about]

/-! ### The identity -/

theorem toMatrix_identity_eq_special : (identity : Operator ℝ).toMatrix = special 1 0 := by
  rw [toMatrix_identity, special, map_zero, map_one, neg_zero, one_fin_two]

/-- **The identity has no angles.** -/
theorem eulerAngles_identity : (identity : Operator ℝ).eulerAngles = ⟨0, 0, 0⟩ := by
  have hspecial : (identity : Operator ℝ).withoutPhase.toMatrix = special 1 0 :=
    withoutPhase_of_special (by simp) toMatrix_identity_eq_special
  have hacross : (identity : Operator ℝ).across = 0 := by
    rw [across_eq hspecial, mul_zero, mul_zero]
  apply EulerAngles.ext
  · rw [eulerAngles_z hspecial]
    simp
  · rw [eulerAngles_y (by simp [hacross]) (by simp [hacross]), hacross]
    simp
  · have halong : (identity : Operator ℝ).along = 2 := by
      rw [along_eq hspecial]
      simp
    rw [eulerAngles_x, hacross, halong]
    exact Complex.arg_eq_zero_iff.2 ⟨zero_le_two, rfl⟩

/-! ### Its multiples -/

/-- Zero times a matrix is not unitary. -/
theorem ne_zero_of_smul_mem_unitaryGroup {c : ℂ} {M : Matrix (Fin 2) (Fin 2) ℂ}
    (h : c • M ∈ unitaryGroup (Fin 2) ℂ) : c ≠ 0 := by
  rintro rfl
  rw [zero_smul, mem_unitaryGroup_iff, zero_mul] at h
  exact zero_ne_one h

/-- **All turns of a unitary operator do nothing exactly if it is a multiple of the identity.** -/
theorem forall_isNoop_turns_iff (hu : u.toMatrix ∈ unitaryGroup (Fin 2) ℂ) (gate : String) :
    (∀ turn ∈ u.turns gate, turn.isNoop = true) ↔
      ∃ c : ℂ, u.toMatrix = c • (1 : Matrix (Fin 2) (Fin 2) ℂ) := by
  rw [forall_isNoop_turns_iff_eulerAngles, ← eulerAngles_identity]
  constructor
  · intro h
    have hidentity : (identity : Operator ℝ).toMatrix ∈ unitaryGroup (Fin 2) ℂ := by
      rw [toMatrix_identity]
      exact one_mem _
    -- the angle about `y` is zero, so it is no quarter turn
    have hre : u.across.re = 0 := by
      rw [← sin_eulerAngles_y hu, h, eulerAngles_identity, Real.sin_zero]
    have hquarter : |u.across.re| ≠ 1 := by
      rw [hre, abs_zero]
      exact zero_ne_one
    obtain ⟨c, -, hc⟩ := eqUpToPhase_of_eulerAngles_eq hu hidentity h hquarter
    exact ⟨c, by rw [hc, toMatrix_identity]⟩
  · rintro ⟨c, hc⟩
    have hc0 : c ≠ 0 := ne_zero_of_smul_mem_unitaryGroup (hc ▸ hu)
    exact eulerAngles_eq_of_smul hc0 (by rw [hc, toMatrix_identity])

/-- A phase alone; its determinant is on the branch cut of the square root. -/
def quarterPhase : Operator ℝ := ⟨⟨0, 1⟩, ⟨0, 0⟩, ⟨0, 0⟩, ⟨0, 1⟩⟩

theorem toMatrix_quarterPhase :
    quarterPhase.toMatrix = Complex.I • (1 : Matrix (Fin 2) (Fin 2) ℂ) := by
  ext i j
  fin_cases i <;> fin_cases j <;> apply Complex.ext <;>
    simp [toMatrix, quarterPhase, Amplitude.toComplex]

/-- A phase alone turns nothing, and a diagonal operator with two different entries turns
something. -/
theorem isNoop_turns_quarterPhase :
    quarterPhase.toMatrix ∈ unitaryGroup (Fin 2) ℂ ∧
      (∀ turn ∈ quarterPhase.turns "G", turn.isNoop = true) ∧
      turnAboutZ.toMatrix ∈ unitaryGroup (Fin 2) ℂ ∧
      ¬ ∀ turn ∈ turnAboutZ.turns "G", turn.isNoop = true := by
  have hphase : quarterPhase.toMatrix ∈ unitaryGroup (Fin 2) ℂ := by
    rw [toMatrix_quarterPhase, mem_unitaryGroup_iff, star_smul, smul_mul_smul_comm]
    simp
  have hab : Complex.normSq ⟨4 / 5, -(3 / 5)⟩ + Complex.normSq 0 = 1 := by
    rw [Complex.normSq_mk, map_zero]; norm_num
  have hturn : turnAboutZ.toMatrix ∈ unitaryGroup (Fin 2) ℂ :=
    toMatrix_turnAboutZ ▸ special_mem_unitaryGroup hab
  refine ⟨hphase, (forall_isNoop_turns_iff hphase "G").2 ⟨_, toMatrix_quarterPhase⟩, hturn, ?_⟩
  intro h
  obtain ⟨c, hc⟩ := (forall_isNoop_turns_iff hturn "G").1 h
  rw [toMatrix_turnAboutZ] at hc
  have h11 : (⟨4 / 5, -(3 / 5)⟩ : ℂ) = c := by simpa [special] using congrFun (congrFun hc 0) 0
  have h22 : (starRingEnd ℂ) ⟨4 / 5, -(3 / 5)⟩ = c := by
    simpa [special] using congrFun (congrFun hc 1) 1
  have him := congrArg Complex.im (h11.trans h22.symm)
  norm_num at him

end Operator
end QubitSphere
