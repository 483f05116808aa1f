/-
# What a formula shows

A formula has no parentheses around a sum in a sum or a product in a product, so it is read with
each chain grouped to the left, whatever the grouping of its expression: `Expr.shown` is the
expression that is read off.

The tokens of a formula derive what it shows (`exists_derives_shown`), and tokens derive one
expression only.  So two expressions with the same formula show the same (`shown_eq_of_latex_eq`).
-/

import QubitSphere.Proofs.Latex.Tokens

namespace QubitSphere
namespace Expr

open Latex

mutual

/-- The expression that a formula shows: chains are grouped to the left and numbers lose a final
`.0`. -/
def shown : Expr → Expr
  | number literal => .number (Literal.written (ofLiteral literal.text))
  | negate operand => .negate operand.shown
  | binary operation left right => right.shownAfter left.shown operation
  | t => t

/-- What a formula shows where `t` comes behind `ahead` and the sign of `operation`: if `t` is a
chain of the same rank, then its operands go on with the chain of `ahead` one by one. -/
def shownAfter : Expr → Expr → Operation → Expr
  | number literal, ahead, operation =>
    .binary operation ahead (.number (Literal.written (ofLiteral literal.text)))
  | negate operand, ahead, operation => .binary operation ahead (.negate operand.shown)
  | binary inner left right, ahead, operation =>
    if inner.rank = operation.rank then
      right.shownAfter (left.shownAfter ahead operation) inner
    else .binary operation ahead (right.shownAfter left.shown inner)
  | t, ahead, operation => .binary operation ahead t

end

/-- The phrase that the tokens of a formula are. -/
def phrase : Expr → Phrase
  | binary operation _ _ => .chain operation.rank
  | _ => .power

/-- What is no chain of the same rank is one operand of the chain before it. -/
theorem shownAfter_of_ne {t : Expr} {operation : Operation}
    (h : t.phrase ≠ .chain operation.rank) (ahead : Expr) :
    t.shownAfter ahead operation = .binary operation ahead t.shown := by
  cases t with
  | binary inner left right =>
    have hrank : inner.rank ≠ operation.rank := fun hrank => h (congrArg Phrase.chain hrank)
    rw [shownAfter, if_neg hrank, shown]
  | number | name | negate | pow | call => rfl

/-- A chain of the same rank continues the chain before it, operand by operand. -/
theorem shownAfter_of_eq {inner operation : Operation} (h : inner.rank = operation.rank)
    (left right ahead : Expr) :
    (binary inner left right).shownAfter ahead operation =
      right.shownAfter (left.shownAfter ahead operation) inner := by
  rw [shownAfter, if_pos h]

/-- A power is no chain. -/
theorem phrase_ne_chain {t : Expr} (h : t.phrase = .power) (rank : Rank) :
    t.phrase ≠ .chain rank :=
  h ▸ nofun

/-! ### Its derivation -/

/-- Operations of the same rank put their operands in the same place. -/
theorem place_eq_of_rank_eq {inner operation : Operation} (hinner : inner ≠ .div)
    (hoperation : operation ≠ .div) (h : inner.rank = operation.rank) :
    inner.place = operation.place := by
  cases inner <;> cases operation <;> first | rfl | contradiction

/-- A chain has no parentheses among the operands of its own rank. -/
theorem hasOwnParentheses_of_rank_eq {inner operation : Operation} (hinner : inner ≠ .div)
    (h : inner.rank = operation.rank) (left right : Expr) :
    hasOwnParentheses (binary inner left right) operation.place = false := by
  cases inner <;> cases operation <;> first | rfl | contradiction

/-- What is no chain of the same rank has parentheses wherever an operand needs them. -/
theorem exists_derives_operand {t u : Expr} {operation : Operation} {ts : List Token} {d : Nat}
    (ha : t.Arithmetical) (hoperation : operation ≠ .div) (hne : t.phrase ≠ .chain operation.rank)
    (h : Derives t.phrase ts u d) :
    ∃ e, Derives operation.rank.operand
      (bracket (hasOwnParentheses t operation.place) ts) u e := by
  match t, operation with
  | number _, operation | negate _, operation => exact ⟨d, h.operand_of_power _⟩
  | binary .add _ _, .mul | binary .sub _ _, .mul => exact ⟨d + 1, h.power_of_group⟩
  | binary .mul _ _, .add | binary .mul _ _, .sub => exact ⟨d, h⟩
  | binary .add _ _, .add | binary .add _ _, .sub | binary .sub _ _, .add | binary .sub _ _, .sub
  | binary .mul _ _, .mul => exact absurd rfl hne
  | binary .div _ _, _ => exact absurd rfl ha.1
  | _, .div => exact absurd rfl hoperation

/-- The tokens of an expression, in the parentheses that its place asks for, are a chain. -/
theorem exists_derives_chain {t u : Expr} {operation : Operation} {ts : List Token} {d : Nat}
    (ha : t.Arithmetical) (hoperation : operation ≠ .div) (h : Derives t.phrase ts u d) :
    ∃ e, Derives (.chain operation.rank)
      (bracket (hasOwnParentheses t operation.place) ts) u e := by
  by_cases hne : t.phrase = .chain operation.rank
  · match t with
    | binary inner left right =>
      rw [hasOwnParentheses_of_rank_eq ha.1 (Phrase.chain.inj hne)]
      exact ⟨d, hne ▸ h⟩
  · obtain ⟨e, h⟩ := exists_derives_operand ha hoperation hne h
    exact ⟨e, .operand h⟩

/-- What is no chain of the same rank is derived behind another chain as its last operand. -/
theorem exists_derives_after_of_ne {t ahead : Expr} {operation : Operation} {ts us : List Token}
    {d e : Nat} (ha : t.Arithmetical) (hoperation : operation ≠ .div)
    (hne : t.phrase ≠ .chain operation.rank) (hahead : Derives (.chain operation.rank) ts ahead d)
    (h : Derives t.phrase us t.shown e) :
    ∃ f, Derives (.chain operation.rank)
      (ts ++ operation.token :: bracket (hasOwnParentheses t operation.place) us)
      (t.shownAfter ahead operation) f := by
  obtain ⟨f, h⟩ := exists_derives_operand ha hoperation hne h
  rw [shownAfter_of_ne hne]
  exact ⟨_, .chain hahead operation.operation?_token h⟩

/-- The token of a number derives the number without its final `.0`. -/
theorem derives_shown_number {literal : Literal} (h : (number literal).Readable) :
    Derives .primary (number literal).shownTokens (number literal).shown 0 :=
  .number (ofLiteral_ne_point h.1 (Literal.eq_written_of_ofText? h.2).1)

/-- Whatever phrase an expression is, it is a sum too. -/
theorem Derives.sum_of_phrase {t u : Expr} {ts : List Token} {d : Nat}
    (h : Derives t.phrase ts u d) : Derives .sum ts u d := by
  cases t with
  | binary operation left right => exact h.sum_of_chain
  | number | name | negate | pow | call => exact h.chain_of_power .sum

/-- A minus sign has a number behind it, or parentheses. -/
theorem exists_derives_unary {operand : Expr} {d : Nat} (h : operand.Readable)
    (ha : operand.Arithmetical)
    (hshown : Derives operand.phrase operand.shownTokens operand.shown d) :
    ∃ e, Derives .unary (bracket (!operand.isAtomic) operand.shownTokens) operand.shown e := by
  match operand with
  | number literal => exact ⟨0, .primary (derives_shown_number h)⟩
  | negate _ | binary .. => exact ⟨d + 1, .primary (.group hshown.sum_of_phrase)⟩
  | name _ | pow .. | call .. => exact ha.elim

/-- **The tokens of a formula derive what it shows**, alone and behind the beginning of a chain. -/
theorem exists_derives_shown {t : Expr} (h : t.Readable) (ha : t.Arithmetical) :
    (∃ d, Derives t.phrase t.shownTokens t.shown d) ∧
      ∀ {operation : Operation} {ts : List Token} {ahead : Expr} {d : Nat}, operation ≠ .div →
        Derives (.chain operation.rank) ts ahead d →
        ∃ e, Derives (.chain operation.rank)
          (ts ++ operation.token :: bracket (hasOwnParentheses t operation.place) t.shownTokens)
          (t.shownAfter ahead operation) e := by
  induction t with
  | number literal =>
    have hnumber := (derives_shown_number h).power_of_primary nofun
    exact ⟨⟨0, hnumber⟩, fun hoperation hahead =>
      exists_derives_after_of_ne ha hoperation (phrase_ne_chain rfl _) hahead hnumber⟩
  | negate operand ih =>
    obtain ⟨⟨d, hoperand⟩, -⟩ := ih h ha
    have hreadable : operand.Readable := h
    obtain ⟨e, hunary⟩ := exists_derives_unary hreadable ha hoperand
    have hnegate : Derives .power (negate operand).shownTokens (negate operand).shown (e + 1) :=
      .unary (.negate hunary) (by simp [shownTokens])
    exact ⟨⟨e + 1, hnegate⟩, fun hoperation hahead =>
      exists_derives_after_of_ne ha hoperation (phrase_ne_chain rfl _) hahead hnegate⟩
  | binary inner left right ih ih' =>
    obtain ⟨⟨d, hleft⟩, hafter⟩ := ih h.1 ha.2.1
    obtain ⟨-, hafter'⟩ := ih' h.2 ha.2.2
    obtain ⟨e, hchain⟩ := exists_derives_chain ha.2.1 ha.1 hleft
    obtain ⟨f, hshown⟩ := hafter' ha.1 hchain
    refine ⟨⟨f, hshown⟩, fun {operation ts ahead d} hoperation hahead => ?_⟩
    by_cases hrank : inner.rank = operation.rank
    · obtain ⟨e₁, h₁⟩ := hafter hoperation hahead
      rw [← place_eq_of_rank_eq ha.1 hoperation hrank, ← hrank] at h₁
      obtain ⟨e₂, h₂⟩ := hafter' ha.1 h₁
      rw [shownAfter_of_eq hrank, hasOwnParentheses_of_rank_eq ha.1 hrank, ← hrank]
      rw [List.append_assoc] at h₂
      exact ⟨e₂, h₂⟩
    · exact exists_derives_after_of_ne ha hoperation (fun h => hrank (Phrase.chain.inj h)) hahead
        hshown
  | name | pow | call => exact ha.elim

/-- **Two expressions with the same formula show the same.** -/
theorem shown_eq_of_latex_eq {t u : Expr} (ht : t.Readable) (hu : u.Readable)
    (hta : t.Arithmetical) (hua : u.Arithmetical) (h : t.latex = u.latex) :
    t.shown = u.shown := by
  obtain ⟨⟨d, hd⟩, -⟩ := exists_derives_shown ht hta
  obtain ⟨⟨e, he⟩, -⟩ := exists_derives_shown hu hua
  rw [← tokens_latex ht hta] at hd
  rw [← tokens_latex hu hua, ← h] at he
  exact (hd.sum_of_phrase.unique he.sum_of_phrase fun _ => lexical_of_mem_tokens).1

end Expr
end QubitSphere
