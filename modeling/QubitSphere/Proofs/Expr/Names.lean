/-
# Which name is blamed

A text that can be read fails to have a value only for a name that is unknown, and of several such
names it is the leftmost that is reported.  Which names are looked up, and in which table, can be
told from the tokens alone (`use?`):

| name | is used as |
| --- | --- |
| `pow` before a pair of parentheses with a comma of its own | nothing |
| any other name before `(` | a function |
| any other name | a constant |

The argument is one walk over the tokens, from left to right (`lookUpAll`).  A phrase closes all its
pairs of parentheses and has no comma outside of them (`Derives.commaAhead_append`), so a `pow` has
a comma of its own exactly if it is read with two arguments.  And walking over a phrase fails
exactly as the value of its expression does, whatever the numbers are (`Derives.lookUpAll_append`).
-/

import QubitSphere.Proofs.Expr.SourceForm

namespace QubitSphere
namespace Expr

/-- What a name is used as. -/
inductive Use where
  | function (text : String)
  | constant (text : String)
deriving DecidableEq

/-- Whether a name is in the table in which it is looked up. -/
def Use.Known : Use → Prop
  | function text => (function? text).isSome
  | constant text => (constant? text).isSome

instance : DecidablePred Use.Known
  | .function text => inferInstanceAs (Decidable ((function? text).isSome = true))
  | .constant text => inferInstanceAs (Decidable ((constant? text).isSome = true))

/-- The error that reports a name. -/
def Use.unknown : Use → EvalError
  | function text => .unknownFunction text
  | constant text => .unknownConstant text

/-- Whether a comma comes before the pair of parentheses that is open closes, not counting what is
inside further pairs; `n` of these are open. -/
def commaAhead : Nat → List Token → Bool
  | _, [] => false
  | n, .openParen :: rest => commaAhead (n + 1) rest
  | 0, .closeParen :: _ => false
  | n + 1, .closeParen :: rest => commaAhead n rest
  | 0, .comma :: _ => true
  | n, _ :: rest => commaAhead n rest

/-- What a token is used as, with `rest` after it. -/
def use? : Token → List Token → Option Use
  | .name text, .openParen :: rest =>
    if text = "pow" ∧ commaAhead 0 rest = true then none else some (.function text)
  | .name text, _ => some (.constant text)
  | _, _ => none

/-- What the token at position `i` is used as. -/
def useAt? (tokens : List Token) (i : Nat) : Option Use :=
  tokens[i]?.bind fun token => use? token (tokens.drop (i + 1))

/-- Looks up the names among the tokens, from left to right. -/
def lookUpAll : List Token → Except EvalError Unit
  | [] => .ok ()
  | token :: rest =>
    match use? token rest with
    | none => lookUpAll rest
    | some use => if use.Known then lookUpAll rest else .error use.unknown

/-! ### The first name that is unknown -/

/-- A token that is no name in use is passed over. -/
theorem lookUpAll_cons_of_none {token : Token} {rest : List Token} (h : use? token rest = none) :
    lookUpAll (token :: rest) = lookUpAll rest := by
  rw [lookUpAll, h]

/-- A name that is known is passed over. -/
theorem lookUpAll_cons_of_known {token : Token} {rest : List Token} {use : Use}
    (h : use? token rest = some use) (hknown : use.Known) :
    lookUpAll (token :: rest) = lookUpAll rest := by
  rw [lookUpAll, h]
  exact if_pos hknown

/-- A name that is unknown is reported, and nothing behind it is looked up. -/
theorem lookUpAll_cons_of_not_known {token : Token} {rest : List Token} {use : Use}
    (h : use? token rest = some use) (hknown : ¬ use.Known) :
    lookUpAll (token :: rest) = .error use.unknown := by
  rw [lookUpAll, h]
  exact if_neg hknown

/-- The use of the first token depends on those behind it. -/
theorem useAt?_cons_zero (token : Token) (rest : List Token) :
    useAt? (token :: rest) 0 = use? token rest := rfl

/-- The use of a later token does not depend on those before it. -/
theorem useAt?_cons_succ (token : Token) (rest : List Token) (i : Nat) :
    useAt? (token :: rest) (i + 1) = useAt? rest i := rfl

/-- The walk succeeds exactly if every name that is looked up is known. -/
theorem lookUpAll_eq_ok_iff {tokens : List Token} :
    lookUpAll tokens = .ok () ↔ ∀ i, ∀ use ∈ useAt? tokens i, use.Known := by
  induction tokens with
  | nil => simp [lookUpAll, useAt?]
  | cons token rest ih =>
    rw [← Nat.and_forall_add_one]
    simp only [useAt?_cons_zero, useAt?_cons_succ, ← ih]
    cases huse : use? token rest with
    | none => simp [lookUpAll_cons_of_none huse]
    | some use =>
      by_cases hknown : use.Known
      · simp [lookUpAll_cons_of_known huse hknown, hknown]
      · simp [lookUpAll_cons_of_not_known huse hknown, hknown]

/-- The walk fails at the first name that is unknown. -/
theorem lookUpAll_eq_error_iff {tokens : List Token} {cause : EvalError} :
    lookUpAll tokens = .error cause ↔
      ∃ i, ∃ use ∈ useAt? tokens i, ¬ use.Known ∧ cause = use.unknown ∧
        ∀ j < i, ∀ earlier ∈ useAt? tokens j, earlier.Known := by
  induction tokens with
  | nil => simp [lookUpAll, useAt?]
  | cons token rest ih =>
    rw [← Nat.or_exists_add_one]
    simp only [useAt?_cons_zero, useAt?_cons_succ, Nat.forall_lt_succ_left]
    cases huse : use? token rest with
    | none => simp [lookUpAll_cons_of_none huse, ih]
    | some use =>
      by_cases hknown : use.Known
      · simp [lookUpAll_cons_of_known huse hknown, hknown, ih]
      · simp [lookUpAll_cons_of_not_known huse hknown, hknown, eq_comm]

/-! ### A phrase and what follows it -/

/-- A phrase has no comma of the pair that it stands in, and closes every pair that it opens. -/
theorem Derives.commaAhead_append {phrase : Phrase} {ts : List Token} {t : Expr} {d : Nat}
    (h : Derives phrase ts t d) (n : Nat) (rest : List Token) :
    commaAhead n (ts ++ rest) = commaAhead n rest := by
  induction h generalizing n rest with
  | operand _ ih | unary _ _ ih | primary _ ih => exact ih n rest
  | @chain rank _ _ sign _ _ _ _ _ _ hsign _ ih ih' =>
    rw [List.append_assoc, ih, List.cons_append]
    cases rank <;> cases sign <;> cases hsign <;> exact ih' n rest
  | pow _ _ ih ih' => simp [commaAhead, ih, ih']
  | negate _ ih => exact ih n rest
  | number | name => rfl
  | call _ ih | group _ ih => simp [commaAhead, ih]

/-- A sign is no name. -/
theorem use?_of_operation? {rank : Rank} {sign : Token} {operation : Operation}
    (h : rank.operation? sign = some operation) (rest : List Token) : use? sign rest = none := by
  cases rank <;> cases sign <;> cases h <;> rfl

/-- A name without a parenthesis behind it is a constant, also `pow`. -/
theorem use?_name {text : String} {rest : List Token} (h : ∀ us, rest ≠ .openParen :: us) :
    use? (.name text) rest = some (.constant text) := by
  match rest with
  | [] => rfl
  | .openParen :: us => exact absurd rfl (h us)
  | .number _ :: _ | .name _ :: _ | .closeParen :: _ | .comma :: _ | .plus :: _ | .minus :: _
  | .star :: _ | .slash :: _ => rfl

/-- A constant has a value exactly if the walk passes over it. -/
theorem lookUpAll_name {text : String} {rest : List Token} (h : ∀ us, rest ≠ .openParen :: us) :
    lookUpAll (.name text :: rest) = (name text).value >>= fun _ => lookUpAll rest := by
  rw [value]
  cases hconstant : constant? text with
  | none => exact lookUpAll_cons_of_not_known (use?_name h) (by simp [Use.Known, hconstant])
  | some x => exact lookUpAll_cons_of_known (use?_name h) (by simp [Use.Known, hconstant])

/-- A name before a sum and a closing parenthesis is used as a function, also `pow`. -/
theorem Derives.use?_call {ts : List Token} {t : Expr} {d : Nat} (h : Derives .sum ts t d)
    (function : String) (rest : List Token) :
    use? (.name function) (.openParen :: (ts ++ .closeParen :: rest)) =
      some (.function function) := by
  simp [use?, h.commaAhead_append, commaAhead]

/-- The `pow` of a two-argument power is not looked up. -/
theorem Derives.use?_pow {ts : List Token} {t : Expr} {d : Nat} (h : Derives .sum ts t d)
    (rest : List Token) :
    use? (.name "pow") (.openParen :: (ts ++ .comma :: rest)) = none := by
  simp [use?, h.commaAhead_append, commaAhead]

/-- A function is looked up before the names in its argument. -/
theorem Derives.lookUpAll_call {ts : List Token} {t : Expr} {d : Nat} (h : Derives .sum ts t d)
    (function : String) (rest : List Token) :
    lookUpAll (.name function :: .openParen :: (ts ++ .closeParen :: rest)) =
      if (function? function).isSome then lookUpAll (ts ++ .closeParen :: rest)
      else .error (.unknownFunction function) := by
  by_cases hfunction : (function? function).isSome
  · rw [lookUpAll_cons_of_known (h.use?_call _ _) hfunction, lookUpAll_cons_of_none rfl,
      if_pos hfunction]
  · rw [lookUpAll_cons_of_not_known (h.use?_call _ _) hfunction, if_neg hfunction]
    rfl

/-- Tokens begin with a parenthesis only if their first is one. -/
theorem cons_ne_openParen {token : Token} (h : token ≠ .openParen) (rest us : List Token) :
    token :: rest ≠ .openParen :: us :=
  fun hcons => h (List.head_eq_of_cons_eq hcons)

/-- **Walking over a phrase fails exactly as the value of its expression does.**  A parenthesis
right behind the phrase would turn a constant at its end into a function. -/
theorem Derives.lookUpAll_append {phrase : Phrase} {ts : List Token} {t : Expr} {d : Nat}
    (h : Derives phrase ts t d) (rest : List Token) (hrest : ∀ us, rest ≠ .openParen :: us) :
    lookUpAll (ts ++ rest) = t.value >>= fun _ => lookUpAll rest := by
  have hcomma : Token.comma ≠ .openParen := by decide
  have hclose : Token.closeParen ≠ .openParen := by decide
  induction h generalizing rest with
  | operand _ ih | unary _ _ ih | primary _ ih => exact ih rest hrest
  | @chain rank ts us sign _ _ _ _ _ _ hsign _ ih ih' =>
    -- neither operand is followed by a parenthesis: behind the first one comes the sign
    have hopen : sign ≠ .openParen := by
      rintro rfl
      cases rank <;> cases hsign
    rw [List.append_assoc, List.cons_append, ih _ (cons_ne_openParen hopen _),
      lookUpAll_cons_of_none (use?_of_operation? hsign _), ih' rest hrest]
    simp [value]
  | @pow ts us _ _ _ _ hbase _ ih ih' =>
    -- with a comma behind its first argument `pow` is the operation, which is not looked up
    have htokens : (Token.name "pow" :: .openParen :: (ts ++ .comma :: (us ++ [.closeParen]))) ++
        rest = .name "pow" :: .openParen :: (ts ++ .comma :: (us ++ .closeParen :: rest)) := by
      simp
    rw [htokens, lookUpAll_cons_of_none (hbase.use?_pow _), lookUpAll_cons_of_none rfl,
      ih _ (cons_ne_openParen hcomma _), lookUpAll_cons_of_none rfl,
      ih' _ (cons_ne_openParen hclose _), lookUpAll_cons_of_none rfl]
    simp [value]
  | negate _ ih =>
    rw [List.cons_append, lookUpAll_cons_of_none rfl, ih rest hrest]
    simp [value]
  | number => rfl
  | name => exact lookUpAll_name hrest
  | @call function ts _ _ hargument ih =>
    have htokens : (Token.name function :: .openParen :: (ts ++ [.closeParen])) ++ rest =
        .name function :: .openParen :: (ts ++ .closeParen :: rest) := by simp
    rw [htokens, hargument.lookUpAll_call, ih _ (cons_ne_openParen hclose _),
      lookUpAll_cons_of_none rfl, value]
    cases function? function with
    | none => rfl
    | some f => simp
  | group _ ih =>
    rw [List.cons_append, List.append_assoc, List.singleton_append, lookUpAll_cons_of_none rfl,
      ih _ (cons_ne_openParen hclose _), lookUpAll_cons_of_none rfl]

/-! ### Texts -/

/-- The walk over the tokens of a text succeeds or fails as the value of the text does. -/
theorem lookUpAll_scan {text : String} {t : Expr} (h : read text = .ok t) :
    lookUpAll (Token.scan text.toList) = (valueOf text).map fun _ => () := by
  obtain ⟨d, -, hderives⟩ := read_eq_ok_iff.1 h
  have hwalk := hderives.lookUpAll_append [] nofun
  rw [List.append_nil] at hwalk
  rw [hwalk, valueOf_of_read h]
  cases t.value <;> rfl

/-- **The leftmost unknown name is blamed.**  A text that can be read has a value exactly if every
name in it is in the table in which it is looked up.  If it has none, the error reports the name of
the first token for which this fails. -/
theorem valueOf_blames_leftmost {text : String} {t : Expr} (h : read text = .ok t) :
    ((∃ v, valueOf text = .ok v) ↔
        ∀ i, ∀ use ∈ useAt? (Token.scan text.toList) i, use.Known) ∧
      ∀ cause, valueOf text = .error cause ↔
        ∃ i, ∃ use ∈ useAt? (Token.scan text.toList) i, ¬ use.Known ∧ cause = use.unknown ∧
          ∀ j < i, ∀ earlier ∈ useAt? (Token.scan text.toList) j, earlier.Known := by
  rw [← lookUpAll_eq_ok_iff, lookUpAll_scan h]
  constructor
  · cases valueOf text <;> simp [Except.map]
  · intro cause
    rw [← lookUpAll_eq_error_iff, lookUpAll_scan h]
    cases valueOf text <;> simp [Except.map]

/-- The tokens of `pow(e, -pow(x))`. -/
def twoPowers : List Token :=
  [.name "pow", .openParen, .name "e", .comma, .minus, .name "pow", .openParen, .name "x",
    .closeParen, .closeParen]

/-- The tokens of a text that uses `pow` in both ways. -/
theorem scan_twoPowers : Token.scan "pow(e, -pow(x))".toList = twoPowers := by
  have htext : "pow(e, -pow(x))".toList = "pow".toList ++ '(' :: ("e".toList ++ ',' :: ' ' :: '-' ::
      ("pow".toList ++ '(' :: ("x".toList ++ [')', ')']))) := by decide
  have he : (Token.name "e").Lexical := ⟨'e', [], rfl, by decide, List.all_eq_true.1 rfl⟩
  have hx : (Token.name "x").Lexical := ⟨'x', [], rfl, by decide, List.all_eq_true.1 rfl⟩
  rw [htext, Token.scan_append_sign rfl, Token.scan_append_sign rfl, Token.scan_cons_blank,
    Token.scan_cons_sign rfl, Token.scan_append_sign rfl, Token.scan_append_sign rfl,
    Token.scan_cons_sign rfl, Token.scan_nil, Token.scan_name Token.lexical_pow,
    Token.scan_name he, Token.scan_name hx]
  rfl

/-- The first `pow` of this text takes two arguments, the second is called on one. -/
theorem derives_twoPowers :
    Derives .sum twoPowers (.pow (.name "e") (.negate (.call "pow" (.name "x")))) 3 := by
  have hname (text : String) : Derives .power [.name text] (.name text) 0 :=
    Derives.name.power_of_primary nofun
  have hcall : Derives .primary [.name "pow", .openParen, .name "x", .closeParen]
      (.call "pow" (.name "x")) 1 :=
    .call ((hname "x").chain_of_power .sum)
  have hminus := Derives.unary (.negate (.primary hcall)) (by simp)
  exact Derives.chain_of_power
    (.pow ((hname "e").chain_of_power .sum) (hminus.chain_of_power .sum)) .sum

/-- Below a minus sign `pow` is a function, and an unknown one.  It is blamed before the constant
behind it; the `pow` of two arguments and the constant `e` before it are not. -/
theorem valueOf_twoPowers :
    (∃ t, read "pow(e, -pow(x))" = .ok t) ∧
      valueOf "pow(e, -pow(x))" = .error (.unknownFunction "pow") := by
  have hread := read_eq_ok_iff.2 ⟨3, by decide, scan_twoPowers ▸ derives_twoPowers⟩
  refine ⟨⟨_, hread⟩, ((valueOf_blames_leftmost hread).2 _).2 ?_⟩
  rw [scan_twoPowers]
  exact ⟨5, .function "pow", by decide, by decide, rfl, by decide⟩

end Expr
end QubitSphere
