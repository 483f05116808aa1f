/-
# The direction of a state in each basis

A state that is entered in a basis has computational amplitudes (`Basis.computationalKet`), and its
Bloch vector in the computational frame is the one in the frame of the basis with its coordinates
turned: `(x, y, z)` becomes `(z, -y, x)` for the Hadamard basis and `(y, z, x)` for the Pauli Y
basis (`blochVector_computationalKet`).  The scene swaps the last two coordinates of the
computational frame, so the two bases belong to

| basis | the direction in the scene | what `sceneDirection` gives |
| --- | --- | --- |
| Hadamard | `(z, x, -y)` | `(z, x, -y)` |
| Pauli Y | `(y, x, z)` | `(y, -x, z)` |

A state that is entered in the Pauli Y basis is drawn upside down (`sceneDirection_pauliY`): at the
right place exactly if `x` is zero (`sceneDirection_blochVector_eq_iff`).  Another choice of phases
for the two states of the basis does not help, since it turns the frame, and a turn does not undo a
reflection (`exists_sceneDirection_pauliY_ne`).
-/

import QubitSphere.Proofs.Arith.Exact
import QubitSphere.Ket

namespace QubitSphere

/-- A vector of the scene upside down. -/
def Vector3.upsideDown (v : Vector3 ℝ) : Vector3 ℝ := ⟨v.x, -v.y, v.z⟩

/-- Turning the scene upside down leaves exactly the level directions alone. -/
theorem Vector3.upsideDown_eq_self_iff {v : Vector3 ℝ} : v.upsideDown = v ↔ v.y = 0 := by
  obtain ⟨x, y, z⟩ := v
  rw [upsideDown, Vector3.mk.injEq, neg_eq_self]
  exact ⟨fun h => h.2.1, fun h => ⟨rfl, h, rfl⟩⟩

/-- The Bloch vector by its coordinates. -/
theorem Ket.blochVector_eq (ket : Ket ℝ) : ket.blochVector =
    ⟨2 * (ket.zero.re * ket.one.re + ket.zero.im * ket.one.im),
      2 * (ket.zero.re * ket.one.im - ket.zero.im * ket.one.re),
      ket.zero.re ^ 2 + ket.zero.im ^ 2 - (ket.one.re ^ 2 + ket.one.im ^ 2)⟩ := by
  obtain ⟨⟨a, b⟩, ⟨c, d⟩⟩ := ket
  simp only [blochVector, RealArith.ofScientific_two, Vector3.mk.injEq]
  refine ⟨?_, ?_, ?_⟩
  · change 2 * (a * c - -b * d) = _
    ring
  · change 2 * (a * d + -b * c) = _
    ring
  · change a * a + b * b - (c * c + d * d) = _
    ring

namespace Basis

/-- The computational amplitudes of the first state of a basis. -/
noncomputable def first : Basis → Ket ℝ
  | computational => ⟨⟨1, 0⟩, ⟨0, 0⟩⟩
  | hadamard => ⟨⟨(√2)⁻¹, 0⟩, ⟨(√2)⁻¹, 0⟩⟩
  | pauliY => ⟨⟨(√2)⁻¹, 0⟩, ⟨0, (√2)⁻¹⟩⟩

/-- The computational amplitudes of the second state of a basis. -/
noncomputable def second : Basis → Ket ℝ
  | computational => ⟨⟨0, 0⟩, ⟨1, 0⟩⟩
  | hadamard => ⟨⟨(√2)⁻¹, 0⟩, ⟨-(√2)⁻¹, 0⟩⟩
  | pauliY => ⟨⟨(√2)⁻¹, 0⟩, ⟨0, -(√2)⁻¹⟩⟩

/-- The computational amplitudes of a ket that is entered in a basis. -/
noncomputable def computationalKet (basis : Basis) (ket : Ket ℝ) : Ket ℝ where
  zero := ket.zero * basis.first.zero + ket.one * basis.second.zero
  one := ket.zero * basis.first.one + ket.one * basis.second.one

/-- A vector in the frame of a basis, seen in the computational frame. -/
def computationalFrame : Basis → Vector3 ℝ → Vector3 ℝ
  | computational, v => v
  | hadamard, v => ⟨v.z, -v.y, v.x⟩
  | pauliY, v => ⟨v.y, v.z, v.x⟩

/-- The factor of the amplitudes of both other bases, squared, is a half. -/
theorem inv_sqrt_two_mul_self : (√2)⁻¹ * (√2)⁻¹ = (2⁻¹ : ℝ) := by
  rw [← mul_inv, Real.mul_self_sqrt zero_le_two]

/-- An entry in the computational basis is the state itself. -/
theorem computationalKet_computational (ket : Ket ℝ) :
    computational.computationalKet ket = ket := by
  obtain ⟨⟨a, b⟩, ⟨c, d⟩⟩ := ket
  change Ket.mk ⟨a * 1 - b * 0 + (c * 0 - d * 0), a * 0 + b * 1 + (c * 0 + d * 0)⟩
    ⟨a * 0 - b * 0 + (c * 1 - d * 0), a * 0 + b * 0 + (c * 0 + d * 1)⟩ = _
  simp

/-- The entry in the Hadamard basis by its four numbers: a sum and a difference of the amplitudes.
-/
theorem computationalKet_hadamard (a b c d : ℝ) :
    hadamard.computationalKet ⟨⟨a, b⟩, ⟨c, d⟩⟩ =
      ⟨⟨(a + c) * (√2)⁻¹, (b + d) * (√2)⁻¹⟩, ⟨(a - c) * (√2)⁻¹, (b - d) * (√2)⁻¹⟩⟩ := by
  change Ket.mk
    ⟨a * (√2)⁻¹ - b * 0 + (c * (√2)⁻¹ - d * 0), a * 0 + b * (√2)⁻¹ + (c * 0 + d * (√2)⁻¹)⟩
    ⟨a * (√2)⁻¹ - b * 0 + (c * -(√2)⁻¹ - d * 0), a * 0 + b * (√2)⁻¹ + (c * 0 + d * -(√2)⁻¹)⟩ = _
  congr 2 <;> ring

/-- The entry in the basis of the Pauli Y gate by its four numbers: as in the Hadamard basis, with
the second amplitude a quarter turn ahead. -/
theorem computationalKet_pauliY (a b c d : ℝ) :
    pauliY.computationalKet ⟨⟨a, b⟩, ⟨c, d⟩⟩ =
      ⟨⟨(a + c) * (√2)⁻¹, (b + d) * (√2)⁻¹⟩, ⟨-(b - d) * (√2)⁻¹, (a - c) * (√2)⁻¹⟩⟩ := by
  change Ket.mk
    ⟨a * (√2)⁻¹ - b * 0 + (c * (√2)⁻¹ - d * 0), a * 0 + b * (√2)⁻¹ + (c * 0 + d * (√2)⁻¹)⟩
    ⟨a * 0 - b * (√2)⁻¹ + (c * 0 - d * -(√2)⁻¹), a * (√2)⁻¹ + b * 0 + (c * -(√2)⁻¹ + d * 0)⟩ = _
  congr 2 <;> ring

/-- **A change of the basis turns the Bloch vector.** -/
theorem blochVector_computationalKet (basis : Basis) (ket : Ket ℝ) :
    (basis.computationalKet ket).blochVector = basis.computationalFrame ket.blochVector := by
  have hroot := inv_sqrt_two_mul_self
  cases basis with
  | computational => rw [computationalKet_computational, computationalFrame]
  | hadamard =>
    obtain ⟨⟨a, b⟩, ⟨c, d⟩⟩ := ket
    rw [computationalKet_hadamard, Ket.blochVector_eq, Ket.blochVector_eq, computationalFrame,
      Vector3.mk.injEq]
    generalize (√2)⁻¹ = r at hroot
    refine ⟨?_, ?_, ?_⟩
    · linear_combination (2 * (a + c) * (a - c) + 2 * (b + d) * (b - d)) * hroot
    · linear_combination (2 * (a + c) * (b - d) - 2 * (b + d) * (a - c)) * hroot
    · linear_combination ((a + c) ^ 2 + (b + d) ^ 2 - (a - c) ^ 2 - (b - d) ^ 2) * hroot
  | pauliY =>
    obtain ⟨⟨a, b⟩, ⟨c, d⟩⟩ := ket
    rw [computationalKet_pauliY, Ket.blochVector_eq, Ket.blochVector_eq, computationalFrame,
      Vector3.mk.injEq]
    generalize (√2)⁻¹ = r at hroot
    refine ⟨?_, ?_, ?_⟩
    · linear_combination (2 * (b + d) * (a - c) - 2 * (a + c) * (b - d)) * hroot
    · linear_combination (2 * (a + c) * (a - c) + 2 * (b + d) * (b - d)) * hroot
    · linear_combination ((a + c) ^ 2 + (b + d) ^ 2 - (a - c) ^ 2 - (b - d) ^ 2) * hroot

/-- The direction in the scene of the state that a ket in a basis is. -/
noncomputable def trueDirection (basis : Basis) (ket : Ket ℝ) : Vector3 ℝ :=
  computational.sceneDirection (basis.computationalKet ket).blochVector

/-- In the computational basis and in the Hadamard basis every entry is drawn where its state lies.
-/
theorem sceneDirection_of_ne_pauliY {basis : Basis} (h : basis ≠ pauliY) (ket : Ket ℝ) :
    basis.sceneDirection ket.blochVector = basis.trueDirection ket := by
  rw [trueDirection, blochVector_computationalKet]
  cases basis with
  | computational | hadamard => rfl
  | pauliY => exact absurd rfl h

/-- Where the state entered in the basis of the Pauli Y gate lies: the scene's first two coordinates
change places. -/
theorem trueDirection_pauliY (ket : Ket ℝ) : pauliY.trueDirection ket =
    ⟨ket.blochVector.y, ket.blochVector.x, ket.blochVector.z⟩ := by
  rw [trueDirection, blochVector_computationalKet]
  rfl

/-- **A state that is entered in the Pauli Y basis is drawn upside down.** -/
theorem sceneDirection_pauliY (ket : Ket ℝ) :
    pauliY.sceneDirection ket.blochVector = (pauliY.trueDirection ket).upsideDown := by
  rw [trueDirection_pauliY]
  rfl

/-- **A state is drawn where its computational amplitudes are drawn, unless it is entered in the
Pauli Y basis with a Bloch vector that leaves the plane `x = 0`.** -/
theorem sceneDirection_blochVector_eq_iff (basis : Basis) (ket : Ket ℝ) :
    basis.sceneDirection ket.blochVector =
        computational.sceneDirection (basis.computationalKet ket).blochVector ↔
      basis ≠ pauliY ∨ ket.blochVector.x = 0 := by
  change _ = basis.trueDirection ket ↔ _
  by_cases hbasis : basis = pauliY
  · subst hbasis
    rw [sceneDirection_pauliY, Vector3.upsideDown_eq_self_iff, trueDirection_pauliY]
    exact ⟨Or.inr, fun h => h.resolve_left fun hne => hne rfl⟩
  · exact ⟨fun _ => Or.inl hbasis, fun _ => sceneDirection_of_ne_pauliY hbasis ket⟩

/-- Equal parts of both states of a basis. -/
noncomputable def evenKet : Ket ℝ := ⟨⟨(√2)⁻¹, 0⟩, ⟨(√2)⁻¹, 0⟩⟩

/-- **Equal parts of the two Pauli Y states are the first computational state, the upper pole, and
are drawn at the lower pole.** -/
theorem sceneDirection_pauliY_evenKet :
    pauliY.computationalKet evenKet = ⟨⟨1, 0⟩, ⟨0, 0⟩⟩ ∧
      computational.sceneDirection (pauliY.computationalKet evenKet).blochVector = ⟨0, 1, 0⟩ ∧
      pauliY.sceneDirection evenKet.blochVector = ⟨0, -1, 0⟩ ∧
      pauliY.sceneDirection evenKet.blochVector ≠
        computational.sceneDirection (pauliY.computationalKet evenKet).blochVector := by
  have hket : pauliY.computationalKet evenKet = ⟨⟨1, 0⟩, ⟨0, 0⟩⟩ := by
    have hroot := inv_sqrt_two_mul_self
    rw [evenKet, computationalKet_pauliY]
    congr 2 <;> linarith
  have htrue : pauliY.trueDirection evenKet = ⟨0, 1, 0⟩ := by
    rw [trueDirection, hket, Ket.blochVector_eq]
    simp [sceneDirection]
  have hdrawn : pauliY.sceneDirection evenKet.blochVector = ⟨0, -1, 0⟩ := by
    rw [sceneDirection_pauliY, htrue, Vector3.upsideDown]
  refine ⟨hket, htrue, hdrawn, fun h => ?_⟩
  have hy : (-1 : ℝ) = 1 := congrArg Vector3.y (hdrawn.symm.trans (h.trans htrue))
  norm_num at hy

/-- **No factors for the two Pauli Y states set it right:** whatever they are, some state is drawn
at a wrong place. -/
theorem exists_sceneDirection_pauliY_ne (p q : Amplitude ℝ) :
    ∃ ket : Ket ℝ, pauliY.sceneDirection ket.blochVector ≠
      pauliY.trueDirection ⟨p * ket.zero, q * ket.one⟩ := by
  by_contra! h
  obtain ⟨a, b⟩ := p
  obtain ⟨c, d⟩ := q
  -- equal parts tell what the factors have to be, and parts with a quarter phase the opposite
  have hequal : -2 = 2 * (a * c + b * d) := by
    have hy := congrArg Vector3.y (h ⟨⟨1, 0⟩, ⟨1, 0⟩⟩)
    rw [trueDirection_pauliY, Ket.blochVector_eq, Ket.blochVector_eq] at hy
    change -(2 * (1 * 1 + 0 * 0)) =
      2 * ((a * 1 - b * 0) * (c * 1 - d * 0) + (a * 0 + b * 1) * (c * 0 + d * 1)) at hy
    linarith
  have hquarter : 2 = 2 * (a * c + b * d) := by
    have hx := congrArg Vector3.x (h ⟨⟨1, 0⟩, ⟨0, 1⟩⟩)
    rw [trueDirection_pauliY, Ket.blochVector_eq, Ket.blochVector_eq] at hx
    change 2 * (1 * 1 - 0 * 0) =
      2 * ((a * 1 - b * 0) * (c * 1 + d * 0) - (a * 0 + b * 1) * (c * 0 - d * 1)) at hx
    linarith
  linarith

end Basis
end QubitSphere
