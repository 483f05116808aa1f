/-
# Which expressions are read back

The source form of a readable expression is read back if no function it calls is named `pow` and
the form is nested within the limit (`read_source`).  There is no other way to be read back.  A call
of `pow` with one argument is written where a power may stand, whatever it is an operand of:

| operand of | stands behind |
| --- | --- |
| a negation | the second of its parentheses |
| a sum, difference, product or quotient | the opening parenthesis or the sign |
| a power | the opening parenthesis or the comma |
| a call | the opening parenthesis |

There the reader takes the name and the parenthesis for the beginning of a power, and behind the
argument it misses the comma.  So without a limit the form is refused at the parenthesis that closes
the argument (`missesComma_source`), with one lemma for each production that the source form uses;
and what is refused without a limit is not read within one (`read_source_eq_ok_iff`).
-/

import QubitSphere.Proofs.Expr.SourceForm

namespace QubitSphere
namespace Expr

/-- Whether a phrase that begins with the tokens `ts` is refused, without a limit, for a comma that
does not come before a parenthesis closes. -/
def MissesComma (phrase : Phrase) (ts : List Token) : Prop :=
  ∀ (depth : Nat) (rest : List Token),
    readPhrase none depth phrase (ts ++ rest) = .error (.unexpected .comma (some .closeParen))

/-- Without a limit every depth is allowed. -/
theorem allow_none (n : Nat) : allow none n = .ok () := rfl

/-- A missing comma is reported before anything that follows is looked at. -/
theorem MissesComma.append {phrase : Phrase} {ts : List Token} (h : MissesComma phrase ts)
    (us : List Token) : MissesComma phrase (ts ++ us) := by
  intro depth rest
  rw [List.append_assoc]
  exact h depth (us ++ rest)

/-- A chain misses a comma if its first operand does. -/
theorem MissesComma.operand {rank : Rank} {ts : List Token} (h : MissesComma rank.operand ts) :
    MissesComma (.chain rank) ts := by
  intro depth rest
  rw [readPhrase_chain, h depth rest]
  rfl

/-- A chain misses a comma if a later operand does and all before it is read. -/
theorem MissesComma.chain {rank : Rank} {ts us : List Token} {sign : Token} {operation : Operation}
    {left : Expr} {d : Nat} (h : ReadBack none (.chain rank) ts left d)
    (hsign : rank.operation? sign = some operation) (h' : MissesComma rank.operand us) :
    MissesComma (.chain rank) (ts ++ sign :: us) := by
  intro depth rest
  have hleft := h (allow_none depth) (Phrase.ends_sign hsign (us ++ rest))
  rw [List.append_assoc, List.cons_append, hleft, finish, readTail_cons_of_some _ _ hsign,
    h' depth rest]
  rfl

/-- The base of a power misses a comma of its own. -/
theorem MissesComma.base {ts : List Token} (h : MissesComma .sum ts) :
    MissesComma .power (.name "pow" :: .openParen :: ts) := by
  intro depth rest
  rw [List.cons_append, List.cons_append, readPhrase_pow, h (depth + 1) rest]
  rfl

/-- A power misses a comma if its exponent does. -/
theorem MissesComma.exponent {ts us : List Token} {base : Expr} {d : Nat}
    (h : ReadBack none .sum ts base d) (h' : MissesComma .sum us) :
    MissesComma .power (.name "pow" :: .openParen :: (ts ++ .comma :: us)) := by
  intro depth rest
  have htokens : (.name "pow" :: .openParen :: (ts ++ .comma :: us)) ++ rest =
      .name "pow" :: .openParen :: (ts ++ .comma :: (us ++ rest)) := by simp
  have hbase := h.before_closer (allow_none (depth + 1)) (.inl rfl) (us ++ rest)
  rw [htokens, readPhrase_pow, hbase]
  simp only [allow, ok_bind, take_cons, h' (depth + 1) rest]
  rfl

/-- **A power with one argument misses its comma.** -/
theorem ReadBack.missesComma {ts : List Token} {base : Expr} {d : Nat}
    (h : ReadBack none .sum ts base d) :
    MissesComma .power (.name "pow" :: .openParen :: (ts ++ [.closeParen])) := by
  intro depth rest
  have htokens : (.name "pow" :: .openParen :: (ts ++ [.closeParen])) ++ rest =
      .name "pow" :: .openParen :: (ts ++ .closeParen :: rest) := by simp
  have hbase := h.before_closer (allow_none (depth + 1)) (.inr rfl) rest
  rw [htokens, readPhrase_pow, hbase]
  rfl

/-- A negation misses a comma if its operand does. -/
theorem MissesComma.negate {ts : List Token} (h : MissesComma .unary ts) :
    MissesComma .unary (.minus :: ts) := by
  intro depth rest
  rw [List.cons_append, readPhrase_minus, h (depth + 1) rest]
  rfl

/-- A group misses a comma if the sum in it does. -/
theorem MissesComma.group {ts : List Token} (h : MissesComma .sum ts) :
    MissesComma .primary (.openParen :: ts) := by
  intro depth rest
  rw [List.cons_append, readPhrase_group, readClosed, h (depth + 1) rest]
  rfl

/-- A call misses a comma if its argument does. -/
theorem MissesComma.call {ts : List Token} (h : MissesComma .sum ts) (function : String) :
    MissesComma .primary (.name function :: .openParen :: ts) := by
  intro depth rest
  rw [List.cons_append, List.cons_append, readPhrase_call, readClosed, h (depth + 1) rest]
  rfl

/-- A unary misses a comma if it is a primary that does. -/
theorem MissesComma.primary {token : Token} {ts : List Token}
    (h : MissesComma .primary (token :: ts)) (htoken : token ≠ .minus) :
    MissesComma .unary (token :: ts) := by
  intro depth rest
  rw [List.cons_append,
    readPhrase_unary_of_not_minus _ _ fun _ htokens => htoken (List.cons.inj htokens).1]
  exact h depth rest

/-- A power misses a comma if it is a unary that does. -/
theorem MissesComma.unary {token : Token} {ts : List Token} (h : MissesComma .unary (token :: ts))
    (htoken : token ≠ .name "pow") : MissesComma .power (token :: ts) := by
  intro depth rest
  rw [readPhrase_power_of_not_pow _ _ fun ⟨_, hpow⟩ => htoken (List.cons.inj hpow).1.symm]
  exact h depth rest

/-! ### Phrases around an operand -/

/-- A chain misses a comma if the power that it begins with does. -/
theorem MissesComma.chain_of_power {ts : List Token} (h : MissesComma .power ts) (rank : Rank) :
    MissesComma (.chain rank) ts := by
  cases rank with
  | sum => exact .operand (.operand h)
  | product => exact .operand h

/-- An operand misses a comma if the power that it begins with does. -/
theorem MissesComma.operand_of_power {ts : List Token} (h : MissesComma .power ts) (rank : Rank) :
    MissesComma rank.operand ts := by
  cases rank with
  | sum => exact .operand h
  | product => exact h

/-- A sum misses a comma if the chain that it begins with does. -/
theorem MissesComma.sum_of_chain {rank : Rank} {ts : List Token}
    (h : MissesComma (.chain rank) ts) : MissesComma .sum ts := by
  cases rank with
  | sum => exact h
  | product => exact .operand h

/-- A power misses a comma if it is a group that does. -/
theorem MissesComma.power_of_group {ts : List Token} (h : MissesComma .sum ts) :
    MissesComma .power (.openParen :: ts) :=
  (h.group.primary nofun).unary nofun

/-! ### Source forms -/

/-- A readable expression is printed in tokens that can come from a text. -/
theorem lexical_of_mem_sourceTokens {t : Expr} (h : t.Readable) {token : Token}
    (htoken : token ∈ t.sourceTokens) : token.Lexical := by
  rw [← scan_source h] at htoken
  exact Token.lexical_of_mem_scan htoken

/-- **The printed form is read back as any chain**, as deep as it prints parentheses and minus
signs. -/
theorem readBack_source {limit : Option Nat} {t : Expr} (h : t.Readable) (hpow : t.PowFree)
    (rank : Rank) : ReadBack limit (.chain rank) t.sourceTokens t t.sourceDepth :=
  ((derives_source h hpow).chain_of_power rank).readBack fun _ => lexical_of_mem_sourceTokens h

/-- **Without a limit a source form that calls `pow` misses a comma.** -/
theorem missesComma_source {t : Expr} (h : t.Readable) (hpow : ¬ t.PowFree) :
    MissesComma .power t.sourceTokens := by
  induction t with
  | number literal => exact absurd True.intro hpow
  | name text => exact absurd True.intro hpow
  | negate operand ih =>
    have hgroup := ((ih h hpow).chain_of_power .sum).group.primary nofun
    have hminus := (hgroup.negate.unary nofun).chain_of_power .sum
    exact hminus.power_of_group.append [.closeParen, .closeParen]
  | binary operation left right ih ih' =>
    by_cases hleft : left.PowFree
    · have hright := (ih' h.2 fun hright => hpow ⟨hleft, hright⟩).operand_of_power operation.rank
      have hchain := MissesComma.chain (readBack_source h.1 hleft operation.rank)
        operation.operation?_token (hright.append [.closeParen])
      exact hchain.sum_of_chain.power_of_group
    · exact (((ih h.1 hleft).chain_of_power .sum).append _).power_of_group
  | pow base exponent ih ih' =>
    by_cases hbase : base.PowFree
    · have hexponent := (ih' h.2 fun hexponent => hpow ⟨hbase, hexponent⟩).chain_of_power .sum
      exact .exponent (readBack_source h.1 hbase .sum) (hexponent.append [.closeParen])
    · exact (((ih h.1 hbase).chain_of_power .sum).append _).base
  | call function argument ih =>
    -- a call of `pow` around another misses its comma only once the inner one is read
    by_cases hargument : argument.PowFree
    · obtain rfl : function = "pow" := Classical.byContradiction fun hne => hpow ⟨hne, hargument⟩
      exact (readBack_source h.2 hargument .sum).missesComma
    · have hsum := ((ih h.2 hargument).chain_of_power .sum).append [.closeParen]
      by_cases hfunction : function = "pow"
      · exact hfunction ▸ hsum.base
      · have hname : Token.name function ≠ .name "pow" := fun hname =>
          hfunction (Token.name.inj hname)
        exact ((hsum.call function).primary nofun).unary hname

/-- A source form that calls `pow` is not read. -/
theorem powFree_of_read_source {t t' : Expr} (h : t.Readable) (hread : read t.source = .ok t') :
    t.PowFree := by
  have hlex : ∀ token ∈ t.sourceTokens, token.Lexical := fun _ => lexical_of_mem_sourceTokens h
  rw [read, scan_source h] at hread
  obtain ⟨d, hderives, -⟩ := (ofTokens_eq_ok_iff hlex).1 hread
  have hunlimited : ofTokens none t.sourceTokens = .ok t' := hderives.ofTokens_eq hlex none
  -- the limit may refuse the form before the comma is missed, so it is taken away first
  by_contra hpow
  have hmisses := (missesComma_source h hpow).chain_of_power .sum 0 []
  rw [List.append_nil] at hmisses
  rw [Expr.ofTokens_eq, hmisses] at hunlimited
  cases hunlimited

/-- **An expression is read back from its source form exactly if it calls no function named `pow`
and the form is nested within the limit; deeper forms of such expressions are too deep.** -/
theorem read_source_eq_ok_iff {t : Expr} (h : t.Readable) :
    (read t.source = .ok t ↔ t.PowFree ∧ t.sourceDepth ≤ maxDepth) ∧
      (t.PowFree → maxDepth < t.sourceDepth → read t.source = .error (.tooDeep maxDepth)) := by
  have hdeep : t.PowFree → maxDepth < t.sourceDepth →
      read t.source = .error (.tooDeep maxDepth) := by
    intro hpow hdepth
    rw [read_source h hpow, allow, if_neg (Nat.not_le.2 hdepth)]
    rfl
  refine ⟨⟨?_, ?_⟩, hdeep⟩
  · intro hread
    have hpow := powFree_of_read_source h hread
    refine ⟨hpow, Nat.not_lt.1 fun hdepth => ?_⟩
    rw [hdeep hpow hdepth] at hread
    cases hread
  · rintro ⟨hpow, hdepth⟩
    rw [read_source h hpow, allow, if_pos hdepth]
    rfl

/-- A root of a power of the constant named `pow`, negated. -/
def negatedRoot : Expr :=
  negate (call "sqrt" (pow (name "pow") (number (Literal.written ".5"))))

/-- The constant `pow` is no call, and eighty-six minus signs are too many. -/
theorem read_source_negatedRoot :
    negatedRoot.Readable ∧ read negatedRoot.source = .ok negatedRoot ∧
      (negated 86).Readable ∧ read (negated 86).source = .error (.tooDeep maxDepth) := by
  have hsqrt : (Token.name "sqrt").Lexical :=
    ⟨'s', ['q', 'r', 't'], rfl, by decide, List.all_eq_true.1 rfl⟩
  have hhalf : (Token.number ".5").Lexical := ⟨by decide, List.all_eq_true.1 rfl, by decide⟩
  have hreadable : negatedRoot.Readable :=
    ⟨hsqrt, Token.lexical_pow, hhalf, Literal.ofText?_of_lexical hhalf (by decide)⟩
  have hpow : negatedRoot.PowFree := ⟨by decide, True.intro, True.intro⟩
  have hsigns : (negated 86).Readable := readable_of_read (read_minusSigns (by decide))
  have hdepth : maxDepth < (negated 86).sourceDepth := by rw [sourceDepth_negated]; decide
  exact ⟨hreadable, (read_source_eq_ok_iff hreadable).1.2 ⟨hpow, by decide⟩, hsigns,
    (read_source_eq_ok_iff hsigns).2 (powFree_of_value (value_negated 86)) hdepth⟩

end Expr
end QubitSphere
