/-
# The source form read again

The printer puts parentheses around every operation, and the reader counts each pair as a level: so
the source form of an expression may be nested deeper than the text that it was read from.

| expression | levels that its source form opens around the operands |
| --- | --- |
| number, name | none |
| negation | three: a pair, the minus sign and a second pair |
| sum, difference, product, quotient, power, call | one |

`sourceDepth` is what this adds up to.  An expression that a text can write (`Readable`) and that
calls no function named `pow` (`PowFree`) is read back from its source form exactly if its
`sourceDepth` is within the limit, and is too deep otherwise (`read_source`).  An expression with a
value calls no such function, so the source form of a text with a value has the same value or none
(`valueOf_source_eq_iff`).
-/

import QubitSphere.Proofs.Expr.Recognition
import QubitSphere.Expr.Source
import QubitSphere.Expr.Value
import Mathlib.Logic.Function.Iterate

namespace QubitSphere

/-- The token of an operation. -/
def Operation.token : Operation → Token
  | add => .plus
  | sub => .minus
  | mul => .star
  | div => .slash

/-- The chains that an operation joins. -/
def Operation.rank : Operation → Expr.Rank
  | add | sub => .sum
  | mul | div => .product

/-- The sign of an operation stands for it, in chains of its own rank. -/
theorem Operation.operation?_token (operation : Operation) :
    operation.rank.operation? operation.token = some operation := by
  cases operation <;> rfl

/-- An operation is printed as one character, which is scanned as its sign. -/
theorem Operation.exists_char (operation : Operation) :
    ∃ c, operation.sign.toList = [c] ∧ Token.ofSign? c = some operation.token := by
  cases operation <;> exact ⟨_, rfl, rfl⟩

theorem Token.lexical_pow : (name "pow").Lexical :=
  ⟨'p', ['o', 'w'], rfl, by decide, List.all_eq_true.1 rfl⟩

namespace Expr

/-- Whether some text can write an expression: its names are tokens, and its numbers are what their
texts are read as. -/
def Readable : Expr → Prop
  | number literal =>
    (Token.number literal.text).Lexical ∧ Literal.ofText? literal.text = some literal
  | name text => (Token.name text).Lexical
  | negate operand => operand.Readable
  | binary _ left right => left.Readable ∧ right.Readable
  | pow base exponent => base.Readable ∧ exponent.Readable
  | call function argument => (Token.name function).Lexical ∧ argument.Readable

/-- Whether no function that an expression calls is named `pow`. -/
def PowFree : Expr → Prop
  | number _ | name _ => True
  | negate operand => operand.PowFree
  | binary _ left right => left.PowFree ∧ right.PowFree
  | pow base exponent => base.PowFree ∧ exponent.PowFree
  | call function argument => function ≠ "pow" ∧ argument.PowFree

/-- The tokens of the source form. -/
def sourceTokens : Expr → List Token
  | number literal => [.number literal.text]
  | name text => [.name text]
  | negate operand =>
    .openParen :: .minus :: .openParen :: (operand.sourceTokens ++ [.closeParen, .closeParen])
  | binary operation left right =>
    .openParen :: (left.sourceTokens ++ operation.token :: (right.sourceTokens ++ [.closeParen]))
  | pow base exponent =>
    .name "pow" :: .openParen ::
      (base.sourceTokens ++ .comma :: (exponent.sourceTokens ++ [.closeParen]))
  | call function argument =>
    .name function :: .openParen :: (argument.sourceTokens ++ [.closeParen])

/-- The depth of the source form. -/
def sourceDepth : Expr → Nat
  | number _ | name _ => 0
  | negate operand => operand.sourceDepth + 3
  | binary _ left right => max left.sourceDepth right.sourceDepth + 1
  | pow base exponent => max base.sourceDepth exponent.sourceDepth + 1
  | call _ argument => argument.sourceDepth + 1

/-- **Every expression that tokens of a text write is readable.** -/
theorem Derives.readable {phrase : Phrase} {ts : List Token} {t : Expr} {d : Nat}
    (h : Derives phrase ts t d) (hlex : ∀ token ∈ ts, token.Lexical) : t.Readable := by
  induction h with
  | operand _ ih | unary _ _ ih | primary _ ih => exact ih hlex
  | chain _ _ _ ih ih' =>
    exact ⟨ih fun token h => hlex token (by simp [h]), ih' fun token h => hlex token (by simp [h])⟩
  | pow _ _ ih ih' =>
    exact ⟨ih fun token h => hlex token (by simp [h]), ih' fun token h => hlex token (by simp [h])⟩
  | negate _ ih => exact ih fun token h => hlex token (by simp [h])
  | number hne =>
    have htext := hlex _ (List.mem_singleton_self _)
    exact ⟨htext, Literal.ofText?_of_lexical htext hne⟩
  | name => exact hlex _ (List.mem_singleton_self _)
  | call _ ih =>
    exact ⟨hlex _ (by simp), ih fun token h => hlex token (by simp [h])⟩
  | group _ ih => exact ih fun token h => hlex token (by simp [h])

/-- **Whatever is read is readable**: its names and numbers came from a text. -/
theorem readable_of_read {text : String} {t : Expr} (h : read text = .ok t) : t.Readable := by
  obtain ⟨d, -, h⟩ := read_eq_ok_iff.1 h
  exact h.readable fun _ => Token.lexical_of_mem_scan

/-! ### The tokens of the source form -/

/-- **The source form is cut into its tokens.** -/
theorem scan_source {t : Expr} (h : t.Readable) :
    Token.scan t.source.toList = t.sourceTokens := by
  induction t with
  | number literal => exact Token.scan_number h.1
  | name text => exact Token.scan_name h
  | negate operand ih =>
    have htext : (negate operand).source.toList =
        '(' :: '-' :: '(' :: (operand.source.toList ++ [')', ')']) := by
      simp [source]
    rw [htext, Token.scan_cons_sign rfl, Token.scan_cons_sign rfl, Token.scan_cons_sign rfl,
      Token.scan_append_sign rfl, Token.scan_cons_sign rfl, Token.scan_nil, ih h]
    rfl
  | binary operation left right ih ih' =>
    obtain ⟨c, hc, hsign⟩ := operation.exists_char
    have htext : (binary operation left right).source.toList =
        '(' :: (left.source.toList ++ ' ' :: c :: ' ' :: (right.source.toList ++ [')'])) := by
      simp [source, hc]
    rw [htext, Token.scan_cons_sign rfl, Token.scan_append_blank, Token.scan_cons_sign hsign,
      Token.scan_cons_blank, Token.scan_append_sign rfl, Token.scan_nil, ih h.1, ih' h.2]
    rfl
  | pow base exponent ih ih' =>
    have htext : (pow base exponent).source.toList =
        "pow".toList ++ '(' :: (base.source.toList ++ ',' :: ' ' ::
          (exponent.source.toList ++ [')'])) := by
      simp [source]
    rw [htext, Token.scan_append_sign rfl, Token.scan_append_sign rfl, Token.scan_cons_blank,
      Token.scan_append_sign rfl, Token.scan_nil, Token.scan_name Token.lexical_pow, ih h.1,
      ih' h.2]
    rfl
  | call function argument ih =>
    have htext : (call function argument).source.toList =
        function.toList ++ '(' :: (argument.source.toList ++ [')']) := by
      simp [source]
    rw [htext, Token.scan_append_sign rfl, Token.scan_append_sign rfl, Token.scan_nil,
      Token.scan_name h.1, ih h.2]
    rfl

/-! ### Its derivation -/

/-- A power is a chain of either rank. -/
theorem Derives.chain_of_power {ts : List Token} {t : Expr} {d : Nat} (h : Derives .power ts t d)
    (rank : Rank) : Derives (.chain rank) ts t d := by
  cases rank with
  | sum => exact .operand (.operand h)
  | product => exact .operand h

/-- A power can be an operand of either rank. -/
theorem Derives.operand_of_power {ts : List Token} {t : Expr} {d : Nat} (h : Derives .power ts t d)
    (rank : Rank) : Derives rank.operand ts t d := by
  cases rank with
  | sum => exact .operand h
  | product => exact h

/-- A chain of either rank is a sum. -/
theorem Derives.sum_of_chain {rank : Rank} {ts : List Token} {t : Expr} {d : Nat}
    (h : Derives (.chain rank) ts t d) : Derives .sum ts t d := by
  cases rank with
  | sum => exact h
  | product => exact .operand h

/-- A primary is a power, unless it begins as one with two arguments does. -/
theorem Derives.power_of_primary {ts : List Token} {t : Expr} {d : Nat}
    (h : Derives .primary ts t d) (hpow : ∀ us, ts ≠ .name "pow" :: .openParen :: us) :
    Derives .power ts t d :=
  .unary (.primary h) fun ⟨us, hus⟩ => hpow us hus.symm

/-- A sum in parentheses is a power, one level deeper. -/
theorem Derives.power_of_group {ts : List Token} {t : Expr} {d : Nat} (h : Derives .sum ts t d) :
    Derives .power (.openParen :: (ts ++ [.closeParen])) t (d + 1) :=
  (Derives.group h).power_of_primary nofun

/-- **The source form writes its expression, nested to its `sourceDepth`.** -/
theorem derives_source {t : Expr} (h : t.Readable) (hpow : t.PowFree) :
    Derives .power t.sourceTokens t t.sourceDepth := by
  induction t with
  | number literal =>
    obtain ⟨hne, hliteral⟩ := Literal.eq_written_of_ofText? h.2
    have hnumber : Derives .primary [.number literal.text] (.number literal) 0 := by
      have hnumber := Derives.number hne
      rwa [← hliteral] at hnumber
    exact hnumber.power_of_primary nofun
  | name text => exact Derives.name.power_of_primary nofun
  | negate operand ih =>
    have hgroup := Derives.group ((ih h hpow).chain_of_power .sum)
    have hminus := Derives.unary (.negate (.primary hgroup)) (by simp)
    simpa [sourceTokens, sourceDepth] using (hminus.chain_of_power .sum).power_of_group
  | binary operation left right ih ih' =>
    have hleft := (ih h.1 hpow.1).chain_of_power operation.rank
    have hright := (ih' h.2 hpow.2).operand_of_power operation.rank
    have hchain := Derives.chain hleft operation.operation?_token hright
    simpa [sourceTokens, sourceDepth] using hchain.sum_of_chain.power_of_group
  | pow base exponent ih ih' =>
    exact .pow ((ih h.1 hpow.1).chain_of_power .sum) ((ih' h.2 hpow.2).chain_of_power .sum)
  | call function argument ih =>
    refine (Derives.call ((ih h.2 hpow.2).chain_of_power .sum)).power_of_primary fun us hus => ?_
    exact hpow.1 (Token.name.inj (List.cons.inj hus).1)

/-! ### Reading it again -/

/-- **An expression is read back from its source form, unless that is nested deeper than the
limit.** -/
theorem read_source {t : Expr} (h : t.Readable) (hpow : t.PowFree) :
    read t.source = (do
      allow (some maxDepth) t.sourceDepth
      return t) := by
  have hderives := (derives_source h hpow).chain_of_power .sum
  have hlex : ∀ token ∈ t.sourceTokens, token.Lexical := by
    rw [← scan_source h]
    exact fun _ => Token.lexical_of_mem_scan
  rw [read, scan_source h, hderives.ofTokens_eq hlex]

/-- **The printed form is read back as the expression, if it is nested no deeper than allowed.** -/
theorem read_source_of_le {t : Expr} (h : t.Readable) (hpow : t.PowFree)
    (hdepth : t.sourceDepth ≤ maxDepth) : read t.source = .ok t := by
  rw [read_source h hpow, allow, if_pos hdepth]
  rfl

/-- An expression with a value calls no unknown function. -/
theorem powFree_of_value {t : Expr} {v : Float} (h : t.value = .ok v) : t.PowFree := by
  induction t generalizing v with
  | number | name => exact True.intro
  | negate operand ih =>
    obtain ⟨x, hx, -⟩ := bind_eq_ok_iff.1 h
    exact ih hx
  | binary operation left right ih ih' =>
    obtain ⟨x, hx, h⟩ := bind_eq_ok_iff.1 h
    obtain ⟨y, hy, -⟩ := bind_eq_ok_iff.1 h
    exact ⟨ih hx, ih' hy⟩
  | pow base exponent ih ih' =>
    obtain ⟨x, hx, h⟩ := bind_eq_ok_iff.1 h
    obtain ⟨y, hy, -⟩ := bind_eq_ok_iff.1 h
    exact ⟨ih hx, ih' hy⟩
  | call function argument ih =>
    rw [value] at h
    cases hfunction : function? function with
    | none => rw [hfunction] at h; cases h
    | some f =>
      rw [hfunction] at h
      obtain ⟨x, hx, -⟩ := bind_eq_ok_iff.1 h
      refine ⟨?_, ih hx⟩
      rintro rfl
      cases hfunction

/-- The value of a text is that of the expression read off it. -/
theorem valueOf_of_read {text : String} {t : Expr} (h : read text = .ok t) :
    valueOf text = t.value := by
  rw [valueOf, h]

/-- **The value of the printed form is that of the expression**, or it is too deep. -/
theorem valueOf_source {t : Expr} {v : Float} (h : t.Readable) (hvalue : t.value = .ok v) :
    valueOf t.source =
      if t.sourceDepth ≤ maxDepth then .ok v
      else .error (.syntaxError (.tooDeep maxDepth)) := by
  rw [valueOf, read_source h (powFree_of_value hvalue), allow]
  by_cases hdepth : t.sourceDepth ≤ maxDepth
  · rw [if_pos hdepth, if_pos hdepth]
    exact hvalue
  · rw [if_neg hdepth, if_neg hdepth]
    rfl

/-! ### Minus signs -/

/-- A one behind `n` minus signs. -/
def minusSigns (n : Nat) : String :=
  String.ofList (List.replicate n '-' ++ ['1'])

/-- A one, negated `n` times. -/
def negated (n : Nat) : Expr :=
  negate^[n] (.number (Literal.written "1"))

/-- The tokens of a row of minus signs before a `1`. -/
theorem scan_minusSigns (n : Nat) :
    Token.scan (minusSigns n).toList = List.replicate n .minus ++ [.number "1"] := by
  rw [minusSigns, String.toList_ofList]
  induction n with
  | zero => exact Token.scan_one
  | succ n ih =>
    rw [List.replicate_succ, List.cons_append, Token.scan_cons_sign rfl, ih]
    rfl

/-- Each of these minus signs opens a level. -/
theorem derives_minusSigns (n : Nat) :
    Derives .unary (List.replicate n .minus ++ [.number "1"]) (negated n) n := by
  induction n with
  | zero => exact .primary (.number (by decide))
  | succ n ih =>
    rw [negated, Function.iterate_succ_apply']
    exact .negate ih

/-- Minus signs are read as long as there are no more than levels allowed. -/
theorem read_minusSigns {n : Nat} (h : n ≤ maxDepth) : read (minusSigns n) = .ok (negated n) := by
  rw [read_eq_ok_iff, scan_minusSigns]
  have hpow : ¬ [.name "pow", .openParen] <+: List.replicate n Token.minus ++ [.number "1"] := by
    cases n <;> simp [List.replicate_succ]
  exact ⟨n, h, (Derives.unary (derives_minusSigns n) hpow).chain_of_power .sum⟩

/-- Each minus sign changes the sign of the value once. -/
theorem value_negated (n : Nat) :
    (negated n).value = .ok ((fun x => -x)^[n] (Literal.written "1").value) := by
  induction n with
  | zero => rfl
  | succ n ih =>
    rw [negated, Function.iterate_succ_apply', Function.iterate_succ_apply', value]
    rw [negated] at ih
    rw [ih]
    rfl

/-- **The printed form of a negation opens three levels**: for its minus sign and for two pairs of
parentheses. -/
theorem sourceDepth_negated (n : Nat) : (negated n).sourceDepth = 3 * n := by
  induction n with
  | zero => rfl
  | succ n ih =>
    rw [negated] at ih ⊢
    rw [Function.iterate_succ_apply', sourceDepth, ih]
    omega

/-! ### The value of the source form -/

/-- **The source form of a text with a value has the same value exactly if it is nested within the
limit, and is too deep otherwise.** -/
theorem valueOf_source_eq_iff {text : String} {t : Expr} {v : Float} (hread : read text = .ok t)
    (hvalue : valueOf text = .ok v) :
    (valueOf t.source = .ok v ↔ t.sourceDepth ≤ maxDepth) ∧
      (valueOf t.source = .error (.syntaxError (.tooDeep maxDepth)) ↔
        maxDepth < t.sourceDepth) := by
  rw [valueOf_of_read hread] at hvalue
  rw [valueOf_source (readable_of_read hread) hvalue]
  by_cases hdepth : t.sourceDepth ≤ maxDepth
  · rw [if_pos hdepth]
    exact ⟨⟨fun _ => hdepth, fun _ => rfl⟩, nofun, fun h => absurd hdepth (Nat.not_le.2 h)⟩
  · rw [if_neg hdepth]
    exact ⟨⟨nofun, fun h => absurd h hdepth⟩, fun _ => Nat.not_le.1 hdepth, fun _ => rfl⟩

/-- Two minus signs keep their value. -/
theorem valueOf_source_twoMinusSigns :
    read (minusSigns 2) = .ok (negated 2) ∧ ∃ v, valueOf (minusSigns 2) = .ok v ∧
      valueOf (negated 2).source = .ok v := by
  have hread : read (minusSigns 2) = .ok (negated 2) := read_minusSigns (by decide)
  have hvalue := (valueOf_of_read hread).trans (value_negated 2)
  have hdepth : (negated 2).sourceDepth ≤ maxDepth := by rw [sourceDepth_negated]; decide
  exact ⟨hread, _, hvalue, (valueOf_source_eq_iff hread hvalue).1.2 hdepth⟩

/-- Eighty-six minus signs are within the limit and have a value, but their source form is not
within it. -/
theorem valueOf_source_ne_of_minusSigns :
    read (minusSigns 86) = .ok (negated 86) ∧ ∃ v, valueOf (minusSigns 86) = .ok v ∧
      valueOf (negated 86).source ≠ .ok v := by
  have hread : read (minusSigns 86) = .ok (negated 86) := read_minusSigns (by decide)
  have hvalue := value_negated 86
  have hdepth : ¬ (negated 86).sourceDepth ≤ maxDepth := by rw [sourceDepth_negated]; decide
  refine ⟨hread, _, (valueOf_of_read hread).trans hvalue, ?_⟩
  rw [valueOf_source (readable_of_read hread) hvalue, if_neg hdepth]
  exact nofun

end Expr
end QubitSphere
