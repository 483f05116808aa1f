/-
# How high expressions are

The reader counts the levels that parentheses, calls, powers and minus signs open.  The operations
of a chain open none, but each of them is a node above the operands before it.  So the height of an
expression is bounded by the depth of its text together with the length of its chains.  Where the
text is nested to the depth `d` and no chain has more than `k` operations,

| phrase | is at most so high |
| --- | --- |
| primary, unary, power | `(2 k + 1) d` |
| product | `(2 k + 1) d + k` |
| sum | `(2 k + 1) d + 2 k` |

since each level has a node of its own, a sum, and a product that the sum begins with
(`Derives.height_le`).  Within the depth limit an expression is therefore at least as high as its
longest chain is long, and at most a fixed number of times as high, up to the limit itself
(`height_le_of_read`).  There is no bound that is the same for all texts: a sum of ones is read
however long it is (`read_onesText`).
-/

import QubitSphere.Proofs.Expr.SourceForm

namespace QubitSphere
namespace Expr

/-- The operations of a rank are those that its signs stand for. -/
theorem rank_eq_of_operation? {rank : Rank} {sign : Token} {operation : Operation}
    (h : rank.operation? sign = some operation) : operation.rank = rank := by
  cases rank <;> cases sign <;> cases h <;> rfl

/-- The number of nodes above the lowest number or name. -/
def height : Expr → Nat
  | number _ | name _ => 0
  | negate operand => operand.height + 1
  | binary _ left right => max left.height right.height + 1
  | pow base exponent => max base.height exponent.height + 1
  | call _ argument => argument.height + 1

/-- The number of operations of one rank at the root and to the left below it. -/
def spine (rank : Rank) : Expr → Nat
  | binary operation left _ => if operation.rank = rank then left.spine rank + 1 else 0
  | _ => 0

/-- The number of operations in the longest chain. -/
def longestChain : Expr → Nat
  | number _ | name _ => 0
  | negate operand => operand.longestChain
  | binary operation left right =>
    max (left.spine operation.rank + 1) (max left.longestChain right.longestChain)
  | pow base exponent => max base.longestChain exponent.longestChain
  | call _ argument => argument.longestChain

/-- The chain at the root is no longer than the longest. -/
theorem spine_le_longestChain (rank : Rank) (t : Expr) : t.spine rank ≤ t.longestChain := by
  cases t with
  | binary operation left right =>
    rw [spine, longestChain]
    split
    next hrank => exact hrank ▸ Nat.le_max_left _ _
    next => exact Nat.zero_le _
  | number | name | negate | pow | call => exact Nat.zero_le _

/-- Each operation of the chain at the root is a node above the ones before it. -/
theorem spine_le_height (rank : Rank) (t : Expr) : t.spine rank ≤ t.height := by
  induction t with
  | binary operation left right ih =>
    rw [spine, height]
    split <;> omega
  | number | name | negate | pow | call => exact Nat.zero_le _

/-- **An expression is at least as high as its longest chain is long.** -/
theorem longestChain_le_height (t : Expr) : t.longestChain ≤ t.height := by
  induction t with
  | number | name => exact Nat.le_refl _
  | negate operand ih | call _ operand ih => exact Nat.le_succ_of_le ih
  | binary operation left right ih ih' =>
    have hspine := left.spine_le_height operation.rank
    rw [longestChain, height]
    omega
  | pow base exponent ih ih' =>
    rw [longestChain, height]
    omega

/-! ### The bound by depth and chains -/

/-- What the operands of a chain are high without the levels in them: a sum joins products. -/
def Rank.operandHeight (k : Nat) : Rank → Nat
  | .sum => k
  | .product => 0

/-- What a phrase is high without the levels in it: the operations of the chain that it is, above
those of its first operand. -/
def Phrase.flatHeight (k : Nat) : Phrase → Expr → Nat
  | .chain rank, t => rank.operandHeight k + t.spine rank
  | .power, _ | .unary, _ | .primary, _ => 0

/-- An operand is as high as the chains that it may hold are long. -/
theorem Rank.flatHeight_operand_le {k : Nat} {t : Expr} (rank : Rank) (h : t.longestChain ≤ k) :
    rank.operand.flatHeight k t ≤ rank.operandHeight k := by
  cases rank with
  | sum =>
    have hspine := t.spine_le_longestChain .product
    simp only [operand, Phrase.flatHeight, operandHeight]
    omega
  | product => exact Nat.le_refl 0

/-- A sum within one level is at most as high as two chains are long: its own, and that of a product
in it. -/
theorem Phrase.flatHeight_sum_le {k : Nat} {t : Expr} (h : t.longestChain ≤ k) :
    Phrase.sum.flatHeight k t ≤ 2 * k := by
  have hspine := t.spine_le_longestChain .sum
  simp only [flatHeight, Rank.operandHeight]
  omega

/-- What one more level adds to the height of a sum. -/
theorem Phrase.height_sum_lt {k d e : Nat} {t : Expr} (hk : t.longestChain ≤ k) (hde : d ≤ e)
    (h : t.height ≤ (2 * k + 1) * d + Phrase.sum.flatHeight k t) :
    t.height < (2 * k + 1) * (e + 1) := by
  have hflat := Phrase.flatHeight_sum_le hk
  have hd : (2 * k + 1) * d ≤ (2 * k + 1) * e := Nat.mul_le_mul_left _ hde
  rw [Nat.mul_succ]
  omega

/-- **The height that depth and chains leave room for.** -/
theorem Derives.height_le {phrase : Phrase} {ts : List Token} {t : Expr} {d k : Nat}
    (h : Derives phrase ts t d) (hk : t.longestChain ≤ k) :
    t.height ≤ (2 * k + 1) * d + phrase.flatHeight k t := by
  induction h with
  | @operand rank _ t d _ ih =>
    have hflat := rank.flatHeight_operand_le hk
    have h := ih hk
    rw [Phrase.flatHeight]
    omega
  | @chain rank _ _ _ operation left right d e _ hsign _ ih ih' =>
    rw [longestChain, Nat.max_le, Nat.max_le] at hk
    obtain ⟨-, hleft, hright⟩ := hk
    -- the left operand goes on with the chain, and the right one is of the next rank
    have hflat := rank.flatHeight_operand_le hright
    have hd : (2 * k + 1) * d ≤ (2 * k + 1) * max d e :=
      Nat.mul_le_mul_left _ (Nat.le_max_left d e)
    have he : (2 * k + 1) * e ≤ (2 * k + 1) * max d e :=
      Nat.mul_le_mul_left _ (Nat.le_max_right d e)
    have hl := ih hleft
    have hr := ih' hright
    rw [Phrase.flatHeight] at hl
    rw [Phrase.flatHeight, spine, if_pos (rank_eq_of_operation? hsign), height]
    omega
  | @pow _ _ base exponent d e _ _ ih ih' =>
    rw [longestChain, Nat.max_le] at hk
    have hbase := Phrase.height_sum_lt hk.1 (Nat.le_max_left d e) (ih hk.1)
    have hexponent := Phrase.height_sum_lt hk.2 (Nat.le_max_right d e) (ih' hk.2)
    rw [Phrase.flatHeight, height]
    omega
  | unary _ _ ih | primary _ ih => exact ih hk
  | @negate _ t d _ ih =>
    have h := ih hk
    rw [Phrase.flatHeight] at h ⊢
    rw [height, Nat.mul_succ]
    omega
  | number | name => exact Nat.zero_le _
  | call _ ih => exact Phrase.height_sum_lt hk (Nat.le_refl _) (ih hk)
  | group _ ih => exact (Phrase.height_sum_lt hk (Nat.le_refl _) (ih hk)).le

/-! ### Sums of ones -/

/-- `n` ones, added up after a first one. -/
def sumOfOnes : Nat → Expr
  | 0 => number (Literal.written "1")
  | n + 1 => binary .add (sumOfOnes n) (number (Literal.written "1"))

/-- The characters of a sum of ones. -/
def onesChars : Nat → List Char
  | 0 => ['1']
  | n + 1 => onesChars n ++ ['+', '1']

/-- The text of a sum of ones. -/
def onesText (n : Nat) : String :=
  String.ofList (onesChars n)

/-- **A sum of ones is in the grammar however long it is**, and opens no level. -/
theorem derives_onesChars (n : Nat) :
    Derives .sum (Token.scan (onesChars n)) (sumOfOnes n) 0 := by
  have hone : Derives .power [.number "1"] (number (Literal.written "1")) 0 :=
    (Derives.number (by decide)).power_of_primary nofun
  induction n with
  | zero =>
    rw [onesChars, Token.scan_one]
    exact hone.chain_of_power .sum
  | succ n ih =>
    rw [onesChars, Token.scan_append_sign rfl, Token.scan_one]
    exact .chain ih rfl (hone.operand_of_power .sum)

/-- **A sum of ones is read however long it is.** -/
theorem read_onesText (n : Nat) : read (onesText n) = .ok (sumOfOnes n) := by
  rw [read_eq_ok_iff, onesText, String.toList_ofList]
  exact ⟨0, Nat.zero_le _, derives_onesChars n⟩

/-- A sum is as high as it has signs. -/
theorem height_sumOfOnes (n : Nat) : (sumOfOnes n).height = n := by
  induction n with
  | zero => rfl
  | succ n ih => rw [sumOfOnes, height, ih, height, Nat.max_zero]

/-! ### Texts -/

/-- **A text is read as an expression at least as high as its longest chain is long, and higher only
by what the depth limit leaves room for.** -/
theorem height_le_of_read {text : String} {t : Expr} (h : read text = .ok t) :
    t.longestChain ≤ t.height ∧
      t.height ≤ (2 * t.longestChain + 1) * maxDepth + 2 * t.longestChain := by
  refine ⟨t.longestChain_le_height, ?_⟩
  obtain ⟨d, hd, h⟩ := read_eq_ok_iff.1 h
  have hheight := h.height_le (Nat.le_refl t.longestChain)
  have hflat := Phrase.flatHeight_sum_le (Nat.le_refl t.longestChain)
  have hlimit : (2 * t.longestChain + 1) * d ≤ (2 * t.longestChain + 1) * maxDepth :=
    Nat.mul_le_mul_left _ hd
  omega

/-- A thousand ones after a first one are higher than the depth limit. -/
theorem height_thousandOnes :
    read (onesText 1000) = .ok (sumOfOnes 1000) ∧
      (sumOfOnes 1000).longestChain ≤ (sumOfOnes 1000).height ∧
      (sumOfOnes 1000).height ≤
        (2 * (sumOfOnes 1000).longestChain + 1) * maxDepth + 2 * (sumOfOnes 1000).longestChain ∧
      maxDepth < (sumOfOnes 1000).height := by
  have hread := read_onesText 1000
  obtain ⟨hlow, hhigh⟩ := height_le_of_read hread
  refine ⟨hread, hlow, hhigh, ?_⟩
  rw [height_sumOfOnes]
  decide

/-- **No bound on the height holds for every text.** -/
theorem not_exists_height_le : ¬ ∃ bound, ∀ text t, read text = .ok t → t.height ≤ bound := by
  rintro ⟨bound, h⟩
  have hheight := h _ _ (read_onesText (bound + 1))
  rw [height_sumOfOnes] at hheight
  exact Nat.not_succ_le_self bound hheight

end Expr
end QubitSphere
