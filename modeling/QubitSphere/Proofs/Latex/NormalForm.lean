/-
# Expressions up to notation

A formula does not show everything of its expression.  The normal form leaves out what is only a
matter of notation:

| expression | normal form |
| --- | --- |
| `2.0`, `.0` | the numbers `2` and `0` |
| `Double.pi` | the name `pi` |
| `log(x)` | the call `ln(x)` |
| `exp(1.0)`, `exp(x)` | the name `e`, the power of `e` with exponent `x` |
| `a + (b - c)` | the sum of the terms `a`, `b` and `-c` |
| `a - (b - c)` | the sum of the terms `a`, `-b` and `c` |
| `a * (b * c)` | the product of the factors `a`, `b` and `c` |

A sum is no term of a sum and a product no factor of a product.  So each normal form is one sum of
terms, perhaps of a single one (`ofTerms_terms`), and one product of factors (`ofFactors_factors`).
-/

import QubitSphere.Proofs.Latex.Boxes
import QubitSphere.Proofs.Latex.Exact
import Mathlib.Data.List.Basic

namespace QubitSphere

/-- An expression up to notation; a term of a sum is `true` where it is subtracted. -/
inductive NormalForm where
  | number (text : String)
  | name (text : String)
  | negate (operand : NormalForm)
  | sum (terms : List (Bool × NormalForm))
  | product (factors : List NormalForm)
  | quotient (numerator denominator : NormalForm)
  | power (base exponent : NormalForm)
  | call (function : String) (argument : NormalForm)

namespace NormalForm

/-- The terms of a sum; anything else is its only term. -/
def terms : NormalForm → List (Bool × NormalForm)
  | sum ts => ts
  | x => [(false, x)]

/-- The factors of a product; anything else is its only factor. -/
def factors : NormalForm → List NormalForm
  | product xs => xs
  | x => [x]

/-- A sum of terms, where a single term is no sum. -/
def ofTerms : List (Bool × NormalForm) → NormalForm
  | [(false, x)] => x
  | ts => sum ts

/-- A product of factors, where a single factor is no product. -/
def ofFactors : List NormalForm → NormalForm
  | [x] => x
  | xs => product xs

/-- A term with the other sign. -/
def opposite (term : Bool × NormalForm) : Bool × NormalForm :=
  (!term.1, term.2)

/-- Two sums side by side are one sum, of at least two terms. -/
theorem ofTerms_append {ts us : List (Bool × NormalForm)} (hts : ts ≠ []) (hus : us ≠ []) :
    ofTerms (ts ++ us) = sum (ts ++ us) := by
  match ts, us with
  | [_], _ :: _ | _ :: _ :: _, _ => simp [ofTerms]
  | [], _ => exact absurd rfl hts
  | _, [] => exact absurd rfl hus

/-- Two products side by side are one product, of at least two factors. -/
theorem ofFactors_append {xs ys : List NormalForm} (hxs : xs ≠ []) (hys : ys ≠ []) :
    ofFactors (xs ++ ys) = product (xs ++ ys) := by
  match xs, ys with
  | [_], _ :: _ | _ :: _ :: _, _ => simp [ofFactors]
  | [], _ => exact absurd rfl hxs
  | _, [] => exact absurd rfl hys

end NormalForm

/-- The text of a number without a final `.0`, where a `0` stays of `.0` alone. -/
def Literal.shortText (literal : Literal) : String :=
  match literal.text.toList.dropSuffix? ['.', '0'] with
  | some whole => if whole = [] then "0" else String.ofList whole
  | none => literal.text

namespace Expr

open Latex NormalForm

/-- The normal form of an expression. -/
def normalForm : Expr → NormalForm
  | number literal => .number literal.shortText
  | name text => .name (if text ∈ ["Double.pi", "Float.pi", "CGFloat.pi"] then "pi" else text)
  | negate operand => .negate operand.normalForm
  | binary .add left right => .sum (left.normalForm.terms ++ right.normalForm.terms)
  | binary .sub left right => .sum (left.normalForm.terms ++ right.normalForm.terms.map opposite)
  | binary .mul left right => .product (left.normalForm.factors ++ right.normalForm.factors)
  | binary .div left right => .quotient left.normalForm right.normalForm
  | pow base exponent => .power base.normalForm exponent.normalForm
  | call function argument =>
    if function = "exp" then
      if argument.isOne then .name "e" else .power (.name "e") argument.normalForm
    else .call (if function = "log" then "ln" else function) argument.normalForm

end Expr

/-- A number is shown by its short text. -/
theorem Literal.shortText_eq (literal : Literal) :
    literal.shortText = Latex.ofLiteral literal.text := by
  rw [shortText]
  cases hdrop : literal.text.toList.dropSuffix? ['.', '0'] with
  | some whole =>
    obtain ⟨suffix, htext, hsuffix⟩ := List.dropSuffix?_eq_some_iff.1 hdrop
    rw [beq_iff_eq.1 hsuffix] at htext
    have hreverse : literal.text.toList.reverse = '0' :: '.' :: whole.reverse := by
      rw [htext, List.reverse_append]
      rfl
    rw [Latex.ofLiteral, hreverse]
    simp
  | none =>
    dsimp only
    unfold Latex.ofLiteral
    split
    · next whole hreverse =>
      have htext : literal.text.toList = whole.reverse ++ ['.', '0'] := by
        rw [← List.reverse_inj, hreverse, List.reverse_append, List.reverse_reverse]
        rfl
      have hsome := List.dropSuffix?_eq_some_iff.2 ⟨['.', '0'], htext, beq_self_eq_true _⟩
      rw [hdrop] at hsome
      cases hsome
    · rfl

namespace Expr

open Latex NormalForm

/-- The four names of `\pi` are one. -/
theorem normalForm_name (text : String) :
    (name text).normalForm = .name (if isPiName text then "pi" else text) := by
  rw [normalForm]
  by_cases hpi : text = "pi"
  · rw [hpi]
    rfl
  · simp [isPiName, hpi, or_assoc]

/-- Whether an expression is a product. -/
def isProduct : Expr → Bool
  | binary .mul .. => true
  | _ => false

/-! ### Terms and factors -/

/-- What is neither a sum nor a difference is a single term. -/
theorem terms_of_isSum_eq_false {t : Expr} (h : t.isSum = false) :
    t.normalForm.terms = [(false, t.normalForm)] := by
  cases t with
  | binary operation left right =>
    cases operation with
    | add | sub => cases h
    | mul | div => rfl
  | call function argument =>
    dsimp only [normalForm]
    split
    · split <;> rfl
    · rfl
  | number | name | negate | pow => rfl

/-- What is no product is a single factor. -/
theorem factors_of_isProduct_eq_false {t : Expr} (h : t.isProduct = false) :
    t.normalForm.factors = [t.normalForm] := by
  cases t with
  | binary operation left right =>
    cases operation with
    | mul => cases h
    | add | sub | div => rfl
  | call function argument =>
    dsimp only [normalForm]
    split
    · split <;> rfl
    · rfl
  | number | name | negate | pow => rfl

/-- The normal form of an expression has at least one term. -/
theorem terms_ne_nil (t : Expr) : t.normalForm.terms ≠ [] := by
  induction t with
  | binary operation left right ih ih' =>
    cases operation with
    | add | sub => exact List.append_ne_nil_of_left_ne_nil ih _
    | mul | div => exact List.cons_ne_nil _ _
  | number | name | negate | pow | call =>
    rw [terms_of_isSum_eq_false rfl]
    exact List.cons_ne_nil _ _

/-- The normal form of an expression has at least one factor. -/
theorem factors_ne_nil (t : Expr) : t.normalForm.factors ≠ [] := by
  induction t with
  | binary operation left right ih ih' =>
    cases operation with
    | mul => exact List.append_ne_nil_of_left_ne_nil ih _
    | add | sub | div => exact List.cons_ne_nil _ _
  | number | name | negate | pow | call =>
    rw [factors_of_isProduct_eq_false rfl]
    exact List.cons_ne_nil _ _

/-- **A normal form is the sum of its terms.** -/
theorem ofTerms_terms (t : Expr) : ofTerms t.normalForm.terms = t.normalForm := by
  match t with
  | binary .add left right => exact ofTerms_append (terms_ne_nil left) (terms_ne_nil right)
  | binary .sub left right =>
    exact ofTerms_append (terms_ne_nil left) (List.map_eq_nil_iff.not.2 (terms_ne_nil right))
  | number _ | name _ | negate _ | binary .mul .. | binary .div .. | pow .. | call .. =>
    rw [terms_of_isSum_eq_false rfl]
    rfl

/-- **A normal form is the product of its factors.** -/
theorem ofFactors_factors (t : Expr) : ofFactors t.normalForm.factors = t.normalForm := by
  match t with
  | binary .mul left right => exact ofFactors_append (factors_ne_nil left) (factors_ne_nil right)
  | number _ | name _ | negate _ | binary .add .. | binary .sub .. | binary .div .. | pow .. |
    call .. =>
    rw [factors_of_isProduct_eq_false rfl]
    rfl

end Expr
end QubitSphere
