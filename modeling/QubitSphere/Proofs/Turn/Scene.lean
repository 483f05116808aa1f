/-
# Turns in the scene

The scene shows a Bloch vector with its last two coordinates swapped.  That is a reflection: it
takes each axis to the direction that the axis has in the scene, and a right-handed rotation about
the one to a left-handed rotation about the other (`Basis.sceneDirection_rotate`).  So turns that
are counted by their angle move the drawn directions as the rotation of the state does if they are
played left-handed, whatever their axis (`Turn.follows_leftHanded`).  The turns of an operator are
not all counted so:

| axis | sign of the revolutions | follows in the sense |
| --- | --- | --- |
| `x` | of the angle | left-handed |
| `y` | against the angle | right-handed |
| `z` | of the angle | left-handed |

In the other sense a turn follows only if its angle is a multiple of half a turn
(`Turn.follows_iff`).  No sense fits the turns of an operator that goes about both `y` and `z`
(`Operator.not_exists_sense_follows`).

The rotations of the Bloch vector are those of the states: `exp (-i t σ / 2)` turns it right-handed
by `t` about the axis of `σ` (`Ket.blochVector_apply_rotation`).
-/

import QubitSphere.Proofs.Ket.Direction
import QubitSphere.Proofs.Turn.Recomposition

open Matrix

namespace QubitSphere

namespace Vector3

/-- The three coordinates of a vector. -/
def coords (v : Vector3 ℝ) : Fin 3 → ℝ := ![v.x, v.y, v.z]

/-- The right-handed rotation by the angle `t` about an axis of length one. -/
noncomputable def rotate (axis : Vector3 ℝ) (t : ℝ) (v : Vector3 ℝ) : Vector3 ℝ :=
  let turned := Real.cos t • v.coords + Real.sin t • axis.coords ⨯₃ v.coords +
    ((1 - Real.cos t) * axis.coords ⬝ᵥ v.coords) • axis.coords
  ⟨turned 0, turned 1, turned 2⟩

/-- The coordinates of a rotated vector. -/
theorem rotate_eq (axis : Vector3 ℝ) (t : ℝ) (v : Vector3 ℝ) : axis.rotate t v =
    ⟨Real.cos t * v.x + Real.sin t * (axis.y * v.z - axis.z * v.y) +
        (1 - Real.cos t) * (axis.x * v.x + axis.y * v.y + axis.z * v.z) * axis.x,
      Real.cos t * v.y + Real.sin t * (axis.z * v.x - axis.x * v.z) +
        (1 - Real.cos t) * (axis.x * v.x + axis.y * v.y + axis.z * v.z) * axis.y,
      Real.cos t * v.z + Real.sin t * (axis.x * v.y - axis.y * v.x) +
        (1 - Real.cos t) * (axis.x * v.x + axis.y * v.y + axis.z * v.z) * axis.z⟩ := by
  have hdot : axis.coords ⬝ᵥ v.coords = axis.x * v.x + axis.y * v.y + axis.z * v.z :=
    vec3_dotProduct _ _
  simp only [rotate, hdot, cross_apply]
  rfl

end Vector3

theorem RealArith.tau_eq : (RealArith.tau : ℝ) = 2 * Real.pi := by
  rw [RealArith.tau, ofScientific_two]
  rfl

/-! ### The reflection -/

namespace Basis

/-- The scene of the computational basis exchanges two axes, and exchanging them again undoes it. -/
theorem sceneDirection_sceneDirection (v : Vector3 ℝ) :
    computational.sceneDirection (computational.sceneDirection v) = v := rfl

/-- **The scene shows a rotation as the opposite rotation about the axis that it shows.** -/
theorem sceneDirection_rotate (axis : Vector3 ℝ) (t : ℝ) (v : Vector3 ℝ) :
    computational.sceneDirection (axis.rotate t v) =
      (computational.sceneDirection axis).rotate (-t) (computational.sceneDirection v) := by
  rw [Vector3.rotate_eq, Vector3.rotate_eq, Real.cos_neg, Real.sin_neg, sceneDirection,
    sceneDirection, sceneDirection, Vector3.mk.injEq]
  refine ⟨?_, ?_, ?_⟩ <;> ring

end Basis

namespace Axis

/-- The direction of an axis in the frame of the Bloch vector. -/
def blochDirection : Axis → Vector3 ℝ
  | x => ⟨1, 0, 0⟩
  | y => ⟨0, 1, 0⟩
  | z => ⟨0, 0, 1⟩

/-- The scene shows each axis in the direction that turns about it are played about. -/
theorem sceneDirection_blochDirection (axis : Axis) :
    Basis.computational.sceneDirection axis.blochDirection = axis.sceneDirection := by
  cases axis <;>
    simp only [sceneDirection, RealArith.ofScientific_one, RealArith.ofScientific_zero] <;> rfl

/-- Rotations about an axis of the scene are told apart by the cosine and the sine. -/
theorem rotate_sceneDirection_eq_iff (axis : Axis) {s t : ℝ} :
    (∀ v, axis.sceneDirection.rotate s v = axis.sceneDirection.rotate t v) ↔
      Real.cos s = Real.cos t ∧ Real.sin s = Real.sin t := by
  constructor
  · intro h
    rw [← sceneDirection_blochDirection] at h
    cases axis with
    | x =>
      have h' := h ⟨0, 1, 0⟩
      simpa [Vector3.rotate_eq, blochDirection, Basis.sceneDirection] using h'
    | y =>
      have h' := h ⟨1, 0, 0⟩
      simpa [Vector3.rotate_eq, blochDirection, Basis.sceneDirection] using h'
    | z =>
      have h' := h ⟨0, 0, 1⟩
      simpa [Vector3.rotate_eq, blochDirection, Basis.sceneDirection, and_comm] using h'
  · rintro ⟨hcos, hsin⟩ v
    rw [Vector3.rotate_eq, Vector3.rotate_eq, hcos, hsin]

end Axis

/-! ### Playing turns -/

/-- The sense that turns are played in. -/
inductive Sense where
  | rightHanded
  | leftHanded
deriving DecidableEq

/-- The sign of right-handed angles in a sense. -/
def Sense.sign : Sense → ℝ
  | rightHanded => 1
  | leftHanded => -1

/-- The sense in which the turns about an axis follow the rotations of the state. -/
def Axis.sense : Axis → Sense
  | x | z => .leftHanded
  | y => .rightHanded

/-- The angle of the turn about an axis. -/
def EulerAngles.about (angles : EulerAngles ℝ) : Axis → ℝ
  | .x => angles.x
  | .y => angles.y
  | .z => angles.z

namespace Turn

/-- Where a turn takes a direction of the scene, played in a sense. -/
noncomputable def played (turn : Turn ℝ) (sense : Sense) (v : Vector3 ℝ) : Vector3 ℝ :=
  turn.direction.rotate (sense.sign * (turn.revolutions * (2 * Real.pi))) v

/-- Whether a turn, played in a sense, takes every drawn direction to where the state is drawn after
a right-handed rotation of its Bloch vector by the angle `t` about the axis of the turn. -/
def Follows (turn : Turn ℝ) (sense : Sense) (t : ℝ) : Prop :=
  ∀ v, turn.played sense (Basis.computational.sceneDirection v) =
    Basis.computational.sceneDirection (turn.axis.blochDirection.rotate t v)

/-- **A turn follows a rotation exactly if it is played by the opposite angle**: the scene is a
mirror image, so the two differ in sense. -/
theorem follows_iff_cos_sin {turn : Turn ℝ} {sense : Sense} {t : ℝ} :
    turn.Follows sense t ↔
      Real.cos (sense.sign * (turn.revolutions * (2 * Real.pi))) = Real.cos (-t) ∧
        Real.sin (sense.sign * (turn.revolutions * (2 * Real.pi))) = Real.sin (-t) := by
  rw [← turn.axis.rotate_sceneDirection_eq_iff]
  constructor
  · intro h v
    have hv := h (Basis.computational.sceneDirection v)
    rwa [Basis.sceneDirection_rotate, Axis.sceneDirection_blochDirection,
      Basis.sceneDirection_sceneDirection] at hv
  · intro h v
    rw [Basis.sceneDirection_rotate, Axis.sceneDirection_blochDirection]
    exact h _

/-- Turns that are counted by their angle all follow in one sense. -/
theorem follows_leftHanded {turn : Turn ℝ} {t : ℝ} (h : turn.revolutions * (2 * Real.pi) = t) :
    turn.Follows .leftHanded t := by
  rw [follows_iff_cos_sin, h, Sense.sign, neg_one_mul]
  exact ⟨rfl, rfl⟩

/-- **A turn whose revolutions have the sign of its axis follows the rotation of the state in the
sense of the axis, and in the other sense only if the sine of the angle is zero.** -/
theorem follows_iff {turn : Turn ℝ} {t : ℝ}
    (h : turn.revolutions * (2 * Real.pi) = -turn.axis.sense.sign * t) (sense : Sense) :
    turn.Follows sense t ↔ sense = turn.axis.sense ∨ Real.sin t = 0 := by
  rw [follows_iff_cos_sin, h]
  by_cases hsense : sense = turn.axis.sense
  · have hangle : sense.sign * (-turn.axis.sense.sign * t) = -t := by
      rw [← hsense]
      cases sense <;> simp [Sense.sign]
    rw [hangle]
    exact ⟨fun _ => Or.inl hsense, fun _ => ⟨rfl, rfl⟩⟩
  · have hangle : sense.sign * (-turn.axis.sense.sign * t) = t := by
      revert hsense
      cases sense <;> cases turn.axis.sense <;> simp [Sense.sign]
    rw [hangle, Real.cos_neg, Real.sin_neg, self_eq_neg]
    exact ⟨fun h => Or.inr h.2, fun h => ⟨rfl, h.resolve_left hsense⟩⟩

end Turn

namespace Operator

/-- The revolutions of a turn have the sign of its axis. -/
theorem revolutions_of_mem_turns {gate : String} {u : Operator ℝ} {turn : Turn ℝ}
    (h : turn ∈ u.turns gate) : turn.revolutions * (2 * Real.pi) =
      -turn.axis.sense.sign * u.eulerAngles.about turn.axis := by
  have htau : (2 * Real.pi : ℝ) ≠ 0 := Real.two_pi_pos.ne'
  rw [turns, RealArith.tau_eq] at h
  simp only [List.mem_cons, List.not_mem_nil, or_false] at h
  rcases h with rfl | rfl | rfl
  · change u.eulerAngles.z / (2 * Real.pi) * (2 * Real.pi) = - -1 * u.eulerAngles.z
    rw [div_mul_cancel₀ _ htau, neg_neg, one_mul]
  · change -u.eulerAngles.y / (2 * Real.pi) * (2 * Real.pi) = -1 * u.eulerAngles.y
    rw [div_mul_cancel₀ _ htau, neg_one_mul]
  · change u.eulerAngles.x / (2 * Real.pi) * (2 * Real.pi) = - -1 * u.eulerAngles.x
    rw [div_mul_cancel₀ _ htau, neg_neg, one_mul]

/-- Each turn of an operator follows the rotation of the state in the sense of its axis. -/
theorem follows_iff_of_mem_turns {gate : String} {u : Operator ℝ} {turn : Turn ℝ}
    (h : turn ∈ u.turns gate) (sense : Sense) :
    turn.Follows sense (u.eulerAngles.about turn.axis) ↔
      sense = turn.axis.sense ∨ Real.sin (u.eulerAngles.about turn.axis) = 0 :=
  Turn.follows_iff (revolutions_of_mem_turns h) sense

/-- The turns of an operator all follow the rotations in one sense only if it does not go about `y`,
or about `y` alone. -/
theorem exists_sense_follows_iff (u : Operator ℝ) (gate : String) :
    (∃ sense, ∀ turn ∈ u.turns gate, turn.Follows sense (u.eulerAngles.about turn.axis)) ↔
      Real.sin u.eulerAngles.y = 0 ∨
        (Real.sin u.eulerAngles.z = 0 ∧ Real.sin u.eulerAngles.x = 0) := by
  -- a sense fits an axis of the other sense only if nothing is to be seen of the turn about it
  have hall : ∀ sense, (∀ turn ∈ u.turns gate,
      turn.Follows sense (u.eulerAngles.about turn.axis)) ↔
        (sense = .leftHanded ∨ Real.sin u.eulerAngles.z = 0) ∧
          (sense = .rightHanded ∨ Real.sin u.eulerAngles.y = 0) ∧
            (sense = .leftHanded ∨ Real.sin u.eulerAngles.x = 0) := by
    intro sense
    rw [forall₂_congr fun turn h => follows_iff_of_mem_turns h sense, turns, List.forall_mem_cons,
      List.forall_mem_cons, List.forall_mem_singleton]
    rfl
  constructor
  · rintro ⟨sense, h⟩
    obtain ⟨hz, hy, hx⟩ := (hall sense).1 h
    cases sense with
    | rightHanded => exact Or.inr ⟨hz.resolve_left nofun, hx.resolve_left nofun⟩
    | leftHanded => exact Or.inl (hy.resolve_left nofun)
  · rintro (hy | ⟨hz, hx⟩)
    · exact ⟨.leftHanded, (hall _).2 ⟨Or.inl rfl, Or.inr hy, Or.inl rfl⟩⟩
    · exact ⟨.rightHanded, (hall _).2 ⟨Or.inr hz, Or.inl rfl, Or.inr hx⟩⟩

/-- **Each turn of an operator follows the rotation of the state in the sense of its axis, which is
left-handed for `x` and `z` and right-handed for `y`, and in the other sense only if the sine of its
angle is zero.**  So one sense fits all three only if the operator does not go about `y`, or about
`y` alone. -/
theorem follows_turns_iff (u : Operator ℝ) (gate : String) :
    (∀ turn ∈ u.turns gate, ∀ sense, turn.Follows sense (u.eulerAngles.about turn.axis) ↔
        sense = turn.axis.sense ∨ Real.sin (u.eulerAngles.about turn.axis) = 0) ∧
      ((∃ sense, ∀ turn ∈ u.turns gate, turn.Follows sense (u.eulerAngles.about turn.axis)) ↔
        Real.sin u.eulerAngles.y = 0 ∨
          (Real.sin u.eulerAngles.z = 0 ∧ Real.sin u.eulerAngles.x = 0)) :=
  ⟨fun _ h => follows_iff_of_mem_turns h, exists_sense_follows_iff u gate⟩

/-- A turn about `z` and then one about `y`, with half angles of the tangent `3 / 4`. -/
noncomputable def turnAboutZThenY : Operator ℝ :=
  ⟨⟨16 / 25, -(12 / 25)⟩, ⟨-(12 / 25), -(9 / 25)⟩, ⟨12 / 25, -(9 / 25)⟩, ⟨16 / 25, 12 / 25⟩⟩

theorem toMatrix_turnAboutZThenY : turnAboutZThenY.toMatrix =
    special ⟨16 / 25, -(12 / 25)⟩ ⟨-(12 / 25), -(9 / 25)⟩ := by
  ext i j
  fin_cases i <;> fin_cases j <;> apply Complex.ext <;>
    simp [toMatrix, special, turnAboutZThenY, Amplitude.toComplex]

/-- **No sense fits an operator that goes about `z` and about `y`.** -/
theorem not_exists_sense_follows :
    turnAboutZThenY.toMatrix ∈ unitaryGroup (Fin 2) ℂ ∧
      ¬ ∃ sense, ∀ turn ∈ turnAboutZThenY.turns "G",
        turn.Follows sense (turnAboutZThenY.eulerAngles.about turn.axis) := by
  have hab : Complex.normSq ⟨16 / 25, -(12 / 25)⟩ + Complex.normSq ⟨-(12 / 25), -(9 / 25)⟩ = 1 := by
    rw [Complex.normSq_mk, Complex.normSq_mk]; norm_num
  have hspecial := withoutPhase_of_special hab toMatrix_turnAboutZThenY
  have hre : turnAboutZThenY.across.re = 24 / 25 := by rw [across_eq hspecial]; norm_num
  have hy : Real.sin turnAboutZThenY.eulerAngles.y = 24 / 25 := by
    rw [eulerAngles_y (by rw [hre]; norm_num) (by rw [hre]; norm_num), hre,
      Real.sin_arcsin (by norm_num) (by norm_num)]
  -- of the turn about `z` it is enough that its sine is not zero
  have hz : Real.sin turnAboutZThenY.eulerAngles.z ≠ 0 := by
    have hswing : (starRingEnd ℂ) ⟨16 / 25, -(12 / 25)⟩ ^ 2 - ⟨-(12 / 25), -(9 / 25)⟩ ^ 2 =
        (⟨49 / 625, 168 / 625⟩ : ℂ) := by
      apply Complex.ext <;> simp [sq] <;> norm_num
    have hne : (⟨49 / 625, 168 / 625⟩ : ℂ) ≠ 0 := fun h => by
      have him := congrArg Complex.im h
      norm_num at him
    rw [eulerAngles_z hspecial, hswing, Complex.sin_arg]
    exact div_ne_zero (by norm_num) (norm_ne_zero_iff.2 hne)
  refine ⟨toMatrix_turnAboutZThenY ▸ special_mem_unitaryGroup hab, fun h => ?_⟩
  rcases (exists_sense_follows_iff _ "G").1 h with h0 | ⟨h0, -⟩
  · rw [hy] at h0; norm_num at h0
  · exact hz h0

end Operator

/-! ### Rotations of states -/

/-- The Pauli matrices by the directions of their axes. -/
theorem Axis.pauli_eq (axis : Axis) : axis.pauli =
    !![(axis.blochDirection.z : ℂ), axis.blochDirection.x - Complex.I * axis.blochDirection.y;
      axis.blochDirection.x + Complex.I * axis.blochDirection.y, -axis.blochDirection.z] := by
  cases axis <;> simp [pauli, blochDirection]

/-- The rotations of states by the direction of their axis. -/
theorem Axis.rotation_eq_special (axis : Axis) (t : ℝ) : axis.rotation t =
    special ⟨Real.cos (t / 2), -(Real.sin (t / 2) * axis.blochDirection.z)⟩
      ⟨-(Real.sin (t / 2) * axis.blochDirection.y),
        -(Real.sin (t / 2) * axis.blochDirection.x)⟩ := by
  rw [rotation_eq, pauli_eq]
  ext i j
  fin_cases i <;> fin_cases j <;> apply Complex.ext <;>
    simp [special, -Complex.ofReal_sin, -Complex.ofReal_cos]

/-- The direction of an axis has length one. -/
theorem Axis.blochDirection_sq (axis : Axis) : axis.blochDirection.x ^ 2 +
    axis.blochDirection.y ^ 2 + axis.blochDirection.z ^ 2 = 1 := by
  cases axis <;> norm_num [blochDirection]

namespace Ket

/-- The ket that a matrix takes a ket to. -/
noncomputable def apply (M : Matrix (Fin 2) (Fin 2) ℂ) (ket : Ket ℝ) : Ket ℝ :=
  let zero := M 0 0 * ket.zero.toComplex + M 0 1 * ket.one.toComplex
  let one := M 1 0 * ket.zero.toComplex + M 1 1 * ket.one.toComplex
  ⟨⟨zero.re, zero.im⟩, ⟨one.re, one.im⟩⟩

/-- What a special matrix makes of a state, by real and imaginary parts. -/
theorem apply_special (ket : Ket ℝ) (a b : ℂ) : ket.apply (special a b) =
    ⟨⟨a.re * ket.zero.re - a.im * ket.zero.im + (b.re * ket.one.re - b.im * ket.one.im),
        a.re * ket.zero.im + a.im * ket.zero.re + (b.re * ket.one.im + b.im * ket.one.re)⟩,
      ⟨-b.re * ket.zero.re - b.im * ket.zero.im + (a.re * ket.one.re + a.im * ket.one.im),
        -b.re * ket.zero.im + b.im * ket.zero.re + (a.re * ket.one.im - a.im * ket.one.re)⟩⟩ := by
  rw [apply, Ket.mk.injEq, Amplitude.mk.injEq, Amplitude.mk.injEq]
  refine ⟨⟨by simp [special], by simp [special]⟩, ?_, ?_⟩
  · simp [special]; ring
  · simp [special]; ring

/-- **A rotation of states turns their Bloch vectors right-handed about its axis.** -/
theorem blochVector_apply_rotation (ket : Ket ℝ) (axis : Axis) (t : ℝ) :
    (ket.apply (axis.rotation t)).blochVector = axis.blochDirection.rotate t ket.blochVector := by
  have hone := Real.sin_sq_add_cos_sq (t / 2)
  have haxis := axis.blochDirection_sq
  rw [Axis.rotation_eq_special, apply_special, Vector3.rotate_eq, EulerAngles.cos_eq_half t,
    EulerAngles.sin_eq_half t, blochVector_eq, blochVector_eq, Vector3.mk.injEq]
  obtain ⟨⟨a, b⟩, ⟨c, d⟩⟩ := ket
  generalize axis.blochDirection = n at haxis
  obtain ⟨x, y, z⟩ := n
  generalize Real.cos (t / 2) = p at hone
  generalize Real.sin (t / 2) = q at hone
  dsimp only at haxis ⊢
  -- both sides are quadratic in `q`; the axis and `(p, q)` have length one
  refine ⟨?_, ?_, ?_⟩
  · linear_combination (-(q ^ 2) * (2 * (a * c + b * d))) * haxis +
      (x * (2 * (a * c + b * d)) + y * (2 * (a * d - b * c)) +
        z * (a ^ 2 + b ^ 2 - (c ^ 2 + d ^ 2))) * x * hone
  · linear_combination (-(q ^ 2) * (2 * (a * d - b * c))) * haxis +
      (x * (2 * (a * c + b * d)) + y * (2 * (a * d - b * c)) +
        z * (a ^ 2 + b ^ 2 - (c ^ 2 + d ^ 2))) * y * hone
  · linear_combination (-(q ^ 2) * (a ^ 2 + b ^ 2 - (c ^ 2 + d ^ 2))) * haxis +
      (x * (2 * (a * c + b * d)) + y * (2 * (a * d - b * c)) +
        z * (a ^ 2 + b ^ 2 - (c ^ 2 + d ^ 2))) * z * hone

end Ket

/-- A turn that follows a rotation takes every drawn state to where the rotated state is drawn. -/
theorem Turn.Follows.sceneDirection_apply {turn : Turn ℝ} {sense : Sense} {t : ℝ}
    (h : turn.Follows sense t) (ket : Ket ℝ) :
    turn.played sense (Basis.computational.sceneDirection ket.blochVector) =
      Basis.computational.sceneDirection (ket.apply (turn.axis.rotation t)).blochVector := by
  rw [Ket.blochVector_apply_rotation]
  exact h ket.blochVector

end QubitSphere
