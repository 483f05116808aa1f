/-
# The exact value behind a formula

The value of an arithmetical expression as a rational number, without rounding (`Expr.exact`).

A formula shows its chains grouped to the left.  Regrouping a product, or a sum behind a `+`, leaves
the value as it is, but `1 - (2 + 3)` has the formula of `1 - 2 + 3`: a formula has no parentheses
around a sum or a difference that is subtracted.  So two expressions with the same formula have the
same value if they subtract none (`exact_eq_of_latex_eq`), and in general only what they show has
the same value.
-/

import QubitSphere.Proofs.Latex.Shown
import Mathlib.Algebra.Order.Ring.Rat
import Mathlib.Tactic.Ring

namespace QubitSphere

/-- The number that a literal writes. -/
def Literal.exact (literal : Literal) : ℚ :=
  ofDigits (literal.text.toList.filter Char.isDigit) /
    10 ^ (fraction literal.text.toList).length

/-- What an operation does to two numbers without rounding. -/
def Operation.applyExactly : Operation → ℚ → ℚ → ℚ
  | add, x, y => x + y
  | sub, x, y => x - y
  | mul, x, y => x * y
  | div, x, y => x / y

/-- A zero behind the digits of a number makes it ten times as large. -/
theorem Literal.ofDigits_append_zero (digits : List Char) :
    ofDigits (digits ++ ['0']) = 10 * ofDigits digits := by
  rw [ofDigits, List.foldl_append]
  rfl

/-- A final `.0` adds nothing to a number. -/
theorem Literal.exact_ofLiteral {text : String} (h : (Token.number text).Lexical) :
    (written (Latex.ofLiteral text)).exact = (written text).exact := by
  rcases Latex.ofLiteral_cases text with heq | ⟨whole, htext, heq⟩
  · rw [heq]
  · obtain ⟨-, -, hcount⟩ := h
    -- the point that is dropped is the only one, so what is left is a whole number
    have hpoint : ∀ c ∈ whole, c ≠ '.' := by
      rintro c hc rfl
      have hpos := List.count_pos_iff.2 hc
      rw [htext, List.count_append] at hcount
      have htail : ['.', '0'].count '.' = 1 := rfl
      omega
    have hfraction : fraction whole = [] := by
      rw [fraction, List.dropWhile_eq_nil_iff.2 fun c hc => bne_iff_ne.2 (hpoint c hc)]
      rfl
    have hfraction' : fraction (whole ++ ['.', '0']) = ['0'] := by
      rw [fraction, List.dropWhile_append_of_pos fun c hc => bne_iff_ne.2 (hpoint c hc)]
      rfl
    have hdigits : (whole ++ ['.', '0']).filter Char.isDigit = whole.filter Char.isDigit ++ ['0'] :=
      List.filter_append ..
    rw [exact, exact, written, written, htext, heq, hdigits, hfraction', ofDigits_append_zero]
    split
    · next hwhole =>
      rw [hwhole]
      simp [ofDigits, fraction]
    · rw [hfraction, List.length_nil, List.length_singleton]
      push_cast
      ring

namespace Expr

open Latex

/-- The value of an arithmetical expression without rounding. -/
def exact : Expr → ℚ
  | number literal => literal.exact
  | negate operand => -operand.exact
  | binary operation left right => operation.applyExactly left.exact right.exact
  | name _ | pow .. | call .. => 0

/-- Whether an expression is a sum or a difference. -/
def isSum : Expr → Bool
  | binary .add .. | binary .sub .. => true
  | _ => false

/-- Whether no operand that is subtracted is itself a sum or a difference. -/
def SubtractsNoSum : Expr → Prop
  | binary operation left right =>
    (operation = .sub → right.isSum = false) ∧ left.SubtractsNoSum ∧ right.SubtractsNoSum
  | negate operand => operand.SubtractsNoSum
  | pow base exponent => base.SubtractsNoSum ∧ exponent.SubtractsNoSum
  | call _ argument => argument.SubtractsNoSum
  | number _ | name _ => True

/-- An operand that is no chain of the operation's own kind stands as one operand behind what comes
before. -/
theorem exact_shownAfter_of_ne {t : Expr} {operation : Operation}
    (hne : t.phrase ≠ .chain operation.rank) (h : t.shown.exact = t.exact) (ahead : Expr) :
    (t.shownAfter ahead operation).exact = operation.applyExactly ahead.exact t.exact := by
  rw [shownAfter_of_ne hne, exact, h]

/-- Operands of one rank may be grouped either way behind anything but a subtraction. -/
theorem applyExactly_assoc {inner operation : Operation} (hsub : operation ≠ .sub)
    (hdiv : operation ≠ .div) (hinner : inner ≠ .div) (hrank : inner.rank = operation.rank)
    (x y z : ℚ) :
    inner.applyExactly (operation.applyExactly x y) z =
      operation.applyExactly x (inner.applyExactly y z) := by
  match inner, operation with
  | .add, .add | .sub, .add | .mul, .mul => simp only [Operation.applyExactly]; ring
  | .add, .mul | .sub, .mul | .mul, .add => cases hrank
  | _, .sub => exact absurd rfl hsub
  | _, .div => exact absurd rfl hdiv
  | .div, _ => exact absurd rfl hinner

/-- **A formula shows the value of an expression that subtracts no sum.** -/
theorem exact_shown {t : Expr} (h : t.Readable) (ha : t.Arithmetical) (hsub : t.SubtractsNoSum) :
    t.shown.exact = t.exact ∧
      ∀ {operation : Operation}, operation ≠ .div → (operation = .sub → t.isSum = false) →
        ∀ ahead : Expr,
          (t.shownAfter ahead operation).exact =
            operation.applyExactly ahead.exact t.exact := by
  induction t with
  | number literal =>
    have hliteral := (Literal.eq_written_of_ofText? h.2).2
    have hshown : (number literal).shown.exact = literal.exact := by
      rw [shown, exact, Literal.exact_ofLiteral h.1, ← hliteral]
    exact ⟨hshown, fun _ _ => exact_shownAfter_of_ne (phrase_ne_chain rfl _) hshown⟩
  | negate operand ih =>
    have hshown : (negate operand).shown.exact = (negate operand).exact := by
      rw [shown, exact, exact, (ih h ha hsub).1]
    exact ⟨hshown, fun _ _ => exact_shownAfter_of_ne (phrase_ne_chain rfl _) hshown⟩
  | binary inner left right ih ih' =>
    obtain ⟨hleft, hafter⟩ := ih h.1 ha.2.1 hsub.2.1
    obtain ⟨-, hafter'⟩ := ih' h.2 ha.2.2 hsub.2.2
    have hshown : (binary inner left right).shown.exact = (binary inner left right).exact := by
      rw [shown, hafter' ha.1 hsub.1, hleft, exact]
    refine ⟨hshown, fun {operation} hdiv hno ahead => ?_⟩
    by_cases hrank : inner.rank = operation.rank
    · -- a chain of the rank of a difference is a sum, and no sum is subtracted
      have hne : operation ≠ .sub := by
        rintro rfl
        cases inner <;> first | cases hrank; done | cases hno rfl
      rw [shownAfter_of_eq hrank, hafter' ha.1 hsub.1, hafter hdiv (fun hs => absurd hs hne),
        applyExactly_assoc hne hdiv ha.1 hrank, exact]
    · have hne : (binary inner left right).phrase ≠ .chain operation.rank := fun hphrase =>
        hrank (Phrase.chain.inj hphrase)
      exact exact_shownAfter_of_ne hne hshown ahead
  | name | pow | call => exact ha.elim

/-! ### Texts with one formula -/

/-- The number with a text. -/
def numeral (text : String) : Expr :=
  .number (Literal.written text)

/-- The token of a numeral derives it. -/
theorem derives_numeral {text : String} (h : text ≠ ".") :
    Derives .power [.number text] (numeral text) 0 :=
  (Derives.number h).power_of_primary nofun

/-- The sum or difference of two numerals is derived from its three tokens. -/
theorem derives_sum {m n : String} {sign : Token} {operation : Operation}
    (hsign : Rank.sum.operation? sign = some operation) (hm : m ≠ ".") (hn : n ≠ ".") :
    Derives .sum [.number m, sign, .number n] (binary operation (numeral m) (numeral n)) 0 :=
  .chain ((derives_numeral hm).chain_of_power .sum) hsign
    ((derives_numeral hn).operand_of_power .sum)

/-- Two operations on three numerals, of which the second goes first. -/
def groupedLast (operation operation' : Operation) (k m n : String) : Expr :=
  binary operation (numeral k) (binary operation' (numeral m) (numeral n))

/-- Two operations on three numerals, one after the other. -/
def groupedFirst (operation operation' : Operation) (k m n : String) : Expr :=
  binary operation' (binary operation (numeral k) (numeral m)) (numeral n)

section Grouped

variable {text k m n : String} {sign sign' : Token} {operation operation' : Operation}

/-- A text with parentheses behind its first sign writes the tree that groups there. -/
theorem read_groupedLast
    (h : Token.scan text.toList = [.number k] ++
      sign :: .openParen :: ([.number m, sign', .number n] ++ [.closeParen]))
    (hsign : Rank.sum.operation? sign = some operation)
    (hsign' : Rank.sum.operation? sign' = some operation') (hk : k ≠ ".") (hm : m ≠ ".")
    (hn : n ≠ ".") : read text = .ok (groupedLast operation operation' k m n) := by
  have hgroup := (derives_sum hsign' hm hn).power_of_group
  rw [read_eq_ok_iff, h]
  exact ⟨1, by decide, .chain ((derives_numeral hk).chain_of_power .sum) hsign
    (hgroup.operand_of_power .sum)⟩

/-- A text without parentheses writes the tree that groups at its first sign. -/
theorem read_groupedFirst
    (h : Token.scan text.toList = [.number k, sign, .number m] ++ sign' :: [.number n])
    (hsign : Rank.sum.operation? sign = some operation)
    (hsign' : Rank.sum.operation? sign' = some operation') (hk : k ≠ ".") (hm : m ≠ ".")
    (hn : n ≠ ".") : read text = .ok (groupedFirst operation operation' k m n) := by
  rw [read_eq_ok_iff, h]
  exact ⟨0, by decide, .chain (derives_sum hsign hk hm) hsign'
    ((derives_numeral hn).operand_of_power .sum)⟩

theorem arithmetical_groupedLast (h : operation ≠ .div) (h' : operation' ≠ .div) :
    (groupedLast operation operation' k m n).Arithmetical :=
  ⟨h, trivial, h', trivial, trivial⟩

theorem arithmetical_groupedFirst (h : operation ≠ .div) (h' : operation' ≠ .div) :
    (groupedFirst operation operation' k m n).Arithmetical :=
  ⟨h', ⟨h, trivial, trivial⟩, trivial⟩

end Grouped

/-- **Two texts with the same formula show the same value, and have the same value if they subtract
no sum.** -/
theorem exact_eq_of_latex_eq {text text' : String} {t t' : Expr} (hread : read text = .ok t)
    (hread' : read text' = .ok t') (ha : t.Arithmetical) (ha' : t'.Arithmetical)
    (h : latexOrEmpty text = latexOrEmpty text') :
    t.shown.exact = t'.shown.exact ∧
      (t.SubtractsNoSum → t'.SubtractsNoSum → t.exact = t'.exact) := by
  have ht := readable_of_read hread
  have ht' := readable_of_read hread'
  have hlatex : t.latex = t'.latex := by
    rwa [latexOrEmpty_of_read hread, latexOrEmpty_of_read hread'] at h
  have hshown : t.shown.exact = t'.shown.exact :=
    congrArg exact (shown_eq_of_latex_eq ht ht' ha ha' hlatex)
  refine ⟨hshown, fun hsub hsub' => ?_⟩
  rw [← (exact_shown ht ha hsub).1, ← (exact_shown ht' ha' hsub').1, hshown]

/-- Behind a `+` a difference may be grouped either way, and a final `.0` tells no difference. -/
theorem exact_eq_of_regrouped :
    ∃ t t', read "1.0 + (2 - 3)" = .ok t ∧ read "1 + 2 - 3.0" = .ok t' ∧ t.Arithmetical ∧
      t'.Arithmetical ∧ latexOrEmpty "1.0 + (2 - 3)" = latexOrEmpty "1 + 2 - 3.0" ∧
      t.SubtractsNoSum ∧ t'.SubtractsNoSum ∧ t ≠ t' ∧ t.shown.exact = t'.shown.exact ∧
      t.exact = t'.exact := by
  have hscan : Token.scan "1.0 + (2 - 3)".toList =
      [.number "1.0"] ++ .plus :: .openParen :: ([.number "2", .minus, .number "3"] ++
        [.closeParen]) := by
    decide +kernel
  have hscan' : Token.scan "1 + 2 - 3.0".toList =
      [.number "1", .plus, .number "2"] ++ .minus :: [.number "3.0"] := by
    decide +kernel
  have hread : read "1.0 + (2 - 3)" = .ok (groupedLast .add .sub "1.0" "2" "3") :=
    read_groupedLast hscan rfl rfl (by decide) (by decide) (by decide)
  have hread' : read "1 + 2 - 3.0" = .ok (groupedFirst .add .sub "1" "2" "3.0") :=
    read_groupedFirst hscan' rfl rfl (by decide) (by decide) (by decide)
  have hlatex : latexOrEmpty "1.0 + (2 - 3)" = latexOrEmpty "1 + 2 - 3.0" := by
    rw [latexOrEmpty_of_read hread, latexOrEmpty_of_read hread']
    rfl
  have hsub : (groupedLast .add .sub "1.0" "2" "3").SubtractsNoSum :=
    ⟨nofun, trivial, fun _ => rfl, trivial, trivial⟩
  have hsub' : (groupedFirst .add .sub "1" "2" "3.0").SubtractsNoSum :=
    ⟨fun _ => rfl, ⟨nofun, trivial, trivial⟩, trivial⟩
  have ha : (groupedLast .add .sub "1.0" "2" "3").Arithmetical :=
    arithmetical_groupedLast nofun nofun
  have ha' : (groupedFirst .add .sub "1" "2" "3.0").Arithmetical :=
    arithmetical_groupedFirst nofun nofun
  have hne : groupedLast .add .sub "1.0" "2" "3" ≠ groupedFirst .add .sub "1" "2" "3.0" := by
    rw [groupedLast, groupedFirst]
    exact nofun
  obtain ⟨hshown, hexact⟩ := exact_eq_of_latex_eq hread hread' ha ha' hlatex
  exact ⟨_, _, hread, hread', ha, ha', hlatex, hsub, hsub', hne, hshown, hexact hsub hsub'⟩

/-- A sum that is subtracted has no parentheses. -/
theorem exact_ne_of_subtracted_sum :
    ∃ t t', read "1 - (2 + 3)" = .ok t ∧ read "1 - 2 + 3" = .ok t' ∧ t.Arithmetical ∧
      t'.Arithmetical ∧ latexOrEmpty "1 - (2 + 3)" = latexOrEmpty "1 - 2 + 3" ∧
      t.exact ≠ t'.exact := by
  have hscan : Token.scan "1 - (2 + 3)".toList =
      [.number "1"] ++ .minus :: .openParen :: ([.number "2", .plus, .number "3"] ++
        [.closeParen]) := by
    decide +kernel
  have hscan' : Token.scan "1 - 2 + 3".toList =
      [.number "1", .minus, .number "2"] ++ .plus :: [.number "3"] := by
    decide +kernel
  have hread : read "1 - (2 + 3)" = .ok (groupedLast .sub .add "1" "2" "3") :=
    read_groupedLast hscan rfl rfl (by decide) (by decide) (by decide)
  have hread' : read "1 - 2 + 3" = .ok (groupedFirst .sub .add "1" "2" "3") :=
    read_groupedFirst hscan' rfl rfl (by decide) (by decide) (by decide)
  refine ⟨_, _, hread, hread', arithmetical_groupedLast nofun nofun,
    arithmetical_groupedFirst nofun nofun, ?_, by decide +kernel⟩
  rw [latexOrEmpty_of_read hread, latexOrEmpty_of_read hread']
  rfl

end Expr
end QubitSphere
