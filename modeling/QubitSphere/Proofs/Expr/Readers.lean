/-
# The readers, step by step

Without the proof that it took a token, each reader is one case of `readPhrase`, and what it does to
a list of tokens is said by one equation for each form that the list can have.  No proof about
reading opens the readers themselves.

Each of them opens levels through `allow`, which allows `n` levels at once or tells the limit that
they exceed.

A reader calls the one below it on the tokens that it was given, and any other on fewer.  What is
proved of all readers is proved by induction along these calls (`readers_induction`).
-/

import QubitSphere.Proofs.Expr.Grammar

namespace QubitSphere
namespace Expr

/-- What a reader found, without the proof that it took a token. -/
def Reading.plain {n : Nat} (reading : Reading n) : Except SyntaxError (Expr × List Token) :=
  reading.map fun found => (found.1, found.2.val)

/-- What is left is less than what was given. -/
theorem Reading.length_lt {n : Nat} {reading : Reading n} {t : Expr} {rest : List Token}
    (h : reading.plain = .ok (t, rest)) : rest.length < n := by
  cases reading with
  | error cause => cases h
  | ok found => cases h; exact found.2.property

/-- Reads one phrase, with `depth` levels open around it. -/
def readPhrase (limit : Option Nat) (depth : Nat) (phrase : Phrase) (tokens : List Token) :
    Except SyntaxError (Expr × List Token) :=
  match phrase with
  | .chain rank => (readChain limit depth rank tokens).plain
  | .power => (readPower limit depth tokens).plain
  | .unary => (readUnary limit depth tokens).plain
  | .primary => (readPrimary limit depth tokens).plain

/-- Reads the signs and operands of a chain that come after `first`. -/
def readTail (limit : Option Nat) (depth : Nat) (rank : Rank) (first : Expr)
    (tokens : List Token) : Except SyntaxError (Expr × List Token) :=
  (readChainTail limit depth rank first tokens (Nat.lt_add_one tokens.length)).plain

/-- Takes one token that has to come. -/
def take (expected : Token) (tokens : List Token) : Except SyntaxError (List Token) :=
  (expect expected tokens).map (·.val)

/-- Allows `n` levels open at once. -/
def allow (limit : Option Nat) (n : Nat) : Except SyntaxError Unit :=
  match limit with
  | none => .ok ()
  | some most => if n ≤ most then .ok () else .error (.tooDeep most)

/-- Entering a level is asking whether one more is allowed. -/
theorem enter_eq_allow (limit : Option Nat) (depth : Nat) :
    enter limit depth = allow limit (depth + 1) := rfl

/-- So many levels are allowed if they are no more than the limit, and always if there is none. -/
theorem allow_eq_ok_iff {limit : Option Nat} {n : Nat} :
    allow limit n = .ok () ↔ ∀ most ∈ limit, n ≤ most := by
  cases limit with
  | none => simp [allow]
  | some most => by_cases h : n ≤ most <;> simp [allow, h]

/-- Levels are refused only beyond a limit, and the error names the limit. -/
theorem allow_eq_error_iff {limit : Option Nat} {n : Nat} {cause : SyntaxError} :
    allow limit n = .error cause ↔ ∃ most ∈ limit, most < n ∧ cause = .tooDeep most := by
  cases limit with
  | none => simp [allow]
  | some most =>
    by_cases h : n ≤ most
    · simp only [allow, if_pos h, Option.mem_some_iff]
      exact ⟨nofun, fun ⟨_, hmost, hlt, _⟩ => absurd h (by omega)⟩
    · simp only [allow, if_neg h, Option.mem_some_iff]
      refine ⟨fun hcause => ⟨most, rfl, Nat.not_le.1 h, (Except.error.inj hcause).symm⟩, ?_⟩
      rintro ⟨_, rfl, -, rfl⟩
      rfl

/-- Fewer levels are allowed where more are. -/
theorem allow_of_le {limit : Option Nat} {m n : Nat} (h : allow limit n = .ok ()) (hmn : m ≤ n) :
    allow limit m = .ok () :=
  allow_eq_ok_iff.2 fun most hmost => Nat.le_trans hmn (allow_eq_ok_iff.1 h most hmost)

/-- More levels are refused where fewer are. -/
theorem allow_error_of_le {limit : Option Nat} {m n : Nat} {cause : SyntaxError}
    (h : allow limit m = .error cause) (hmn : m ≤ n) : allow limit n = .error cause := by
  obtain ⟨most, hmost, hlt, hcause⟩ := allow_eq_error_iff.1 h
  exact allow_eq_error_iff.2 ⟨most, hmost, by omega, hcause⟩

/-- Of two demands for levels one after the other the deeper decides: they have the same error. -/
theorem allow_max {α : Type} (limit : Option Nat) (m n : Nat) (next : Except SyntaxError α) :
    (do allow limit m; allow limit n; next) = (do allow limit (max m n); next) := by
  cases hm : allow limit m with
  | error cause => rw [allow_error_of_le hm (Nat.le_max_left m n)]; rfl
  | ok _ =>
    rcases Nat.le_total m n with hmn | hmn
    · rw [Nat.max_eq_right hmn]; rfl
    · rw [Nat.max_eq_left hmn, hm, allow_of_le hm hmn]; rfl

section Equations

variable (limit : Option Nat) (depth : Nat)

theorem take_cons (token : Token) (rest : List Token) : take token (token :: rest) = .ok rest := by
  rw [take, expect, if_pos rfl]; rfl

/-- What was taken stood in front of the rest. -/
theorem eq_cons_of_take {expected : Token} {tokens rest : List Token}
    (h : take expected tokens = .ok rest) : tokens = expected :: rest := by
  match tokens with
  | [] => cases h
  | token :: rest' =>
    by_cases htoken : token = expected
    · subst htoken
      rw [take_cons] at h
      rw [Except.ok.inj h]
    · rw [take, expect, if_neg htoken] at h
      cases h

/-- An operand of a chain is read as the phrase that the rank has for operands. -/
theorem plain_readOperand (rank : Rank) (tokens : List Token) :
    (readOperand limit depth rank tokens).plain = readPhrase limit depth rank.operand tokens := by
  cases rank <;> rw [readOperand] <;> rfl

/-- The bound on the rest plays no part in what is read. -/
theorem plain_readChainTail_congr (rank : Rank) (first : Expr) (tokens : List Token) {n m : Nat}
    (hn : tokens.length < n) (hm : tokens.length < m) :
    (readChainTail limit depth rank first tokens hn).plain =
      (readChainTail limit depth rank first tokens hm).plain := by
  match tokens with
  | [] => rw [readChainTail, readChainTail]; rfl
  | token :: rest =>
    rw [readChainTail, readChainTail]
    cases rank.operation? token with
    | none => rfl
    | some operation =>
      cases readOperand limit depth rank rest with
      | error cause => rfl
      | ok found =>
        obtain ⟨next, rest', hlt⟩ := found
        exact plain_readChainTail_congr rank (.binary operation first next) rest' _ _
termination_by tokens.length
decreasing_by exact Nat.lt_succ_of_lt hlt

/-- A chain is its first operand and then its tail. -/
theorem readPhrase_chain (rank : Rank) (tokens : List Token) :
    readPhrase limit depth (.chain rank) tokens = (do
      let (first, rest) ← readPhrase limit depth rank.operand tokens
      readTail limit depth rank first rest) := by
  rw [← plain_readOperand, readPhrase, readChain]
  cases readOperand limit depth rank tokens with
  | error cause => rfl
  | ok found => exact plain_readChainTail_congr ..

theorem readTail_nil (rank : Rank) (first : Expr) :
    readTail limit depth rank first [] = .ok (first, []) := by
  rw [readTail, readChainTail]; rfl

/-- A chain ends before a token that is no sign of its rank. -/
theorem readTail_cons_of_none {rank : Rank} {token : Token} (h : rank.operation? token = none)
    (first : Expr) (rest : List Token) :
    readTail limit depth rank first (token :: rest) = .ok (first, token :: rest) := by
  rw [readTail, readChainTail, h]; rfl

/-- A sign of the rank goes on with the chain, which takes in what was read so far as its left
operand. -/
theorem readTail_cons_of_some {rank : Rank} {token : Token} {operation : Operation}
    (h : rank.operation? token = some operation) (first : Expr) (rest : List Token) :
    readTail limit depth rank first (token :: rest) = (do
      let (next, rest') ← readPhrase limit depth rank.operand rest
      readTail limit depth rank (.binary operation first next) rest') := by
  rw [readTail, readChainTail, h, ← plain_readOperand]
  dsimp only
  cases readOperand limit depth rank rest with
  | error cause => rfl
  | ok found => exact plain_readChainTail_congr ..

/-- A power has a sum on either side of its comma, one level deeper. -/
theorem readPhrase_pow (rest : List Token) :
    readPhrase limit depth .power (.name "pow" :: .openParen :: rest) = (do
      allow limit (depth + 1)
      let (base, rest₁) ← readPhrase limit (depth + 1) .sum rest
      let rest₂ ← take .comma rest₁
      let (exponent, rest₃) ← readPhrase limit (depth + 1) .sum rest₂
      let rest₄ ← take .closeParen rest₃
      return (.pow base exponent, rest₄)) := by
  simp only [readPhrase]
  rw [readPower, if_pos rfl, enter_eq_allow]
  cases allow limit (depth + 1) with
  | error cause => rfl
  | ok _ =>
  dsimp only [bind, Except.bind]
  cases readChain limit (depth + 1) .sum rest with
  | error cause => rfl
  | ok base =>
  dsimp only [Reading.plain, Except.map, take]
  cases expect .comma base.2.val with
  | error cause => rfl
  | ok rest₂ =>
  dsimp only
  cases readChain limit (depth + 1) .sum rest₂.val with
  | error cause => rfl
  | ok exponent =>
  dsimp only
  cases expect .closeParen exponent.2.val with
  | error cause => rfl
  | ok rest₄ => rfl

/-- Only the name `pow` with a parenthesis behind it begins a power; anything else is a unary. -/
theorem readPhrase_power_of_not_pow {tokens : List Token}
    (h : ¬ [.name "pow", .openParen] <+: tokens) :
    readPhrase limit depth .power tokens = readPhrase limit depth .unary tokens := by
  simp only [readPhrase]
  by_cases hcall : ∃ text rest, tokens = .name text :: .openParen :: rest
  · obtain ⟨text, rest, rfl⟩ := hcall
    have htext : text ≠ "pow" := fun htext => h ⟨rest, by rw [htext]; rfl⟩
    rw [readPower, if_neg htext]
  · rw [readPower]
    exact fun text rest htokens => hcall ⟨text, rest, htokens⟩

/-- Behind a minus sign a unary follows, one level deeper. -/
theorem readPhrase_minus (rest : List Token) :
    readPhrase limit depth .unary (.minus :: rest) = (do
      allow limit (depth + 1)
      let (operand, rest') ← readPhrase limit (depth + 1) .unary rest
      return (.negate operand, rest')) := by
  simp only [readPhrase]
  rw [readUnary, enter_eq_allow]
  cases allow limit (depth + 1) with
  | error cause => rfl
  | ok _ =>
  dsimp only [bind, Except.bind]
  cases readUnary limit (depth + 1) rest with
  | error cause => rfl
  | ok operand => rfl

/-- A unary without a minus sign is a primary. -/
theorem readPhrase_unary_of_not_minus {tokens : List Token} (h : ∀ rest, tokens ≠ .minus :: rest) :
    readPhrase limit depth .unary tokens = readPhrase limit depth .primary tokens := by
  simp only [readPhrase]
  rw [readUnary]
  exact h

/-- Reads a sum and the parenthesis that closes it. -/
def readClosed (tokens : List Token) : Except SyntaxError (Expr × List Token) := do
  let (inner, rest) ← readPhrase limit depth .sum tokens
  let rest' ← take .closeParen rest
  return (inner, rest')

/-- A group is read as what its parentheses close. -/
theorem plain_readGroup (tokens : List Token) :
    (readGroup limit depth tokens).plain = readClosed limit depth tokens := by
  simp only [readClosed, readPhrase]
  rw [readGroup]
  cases readChain limit depth .sum tokens with
  | error cause => rfl
  | ok inner =>
  dsimp only [bind, Except.bind, Reading.plain, Except.map, take]
  cases expect .closeParen inner.2.val with
  | error cause => rfl
  | ok rest => rfl

/-- A name with a parenthesis behind it is called on the sum in the group, one level deeper. -/
theorem readPhrase_call (function : String) (rest : List Token) :
    readPhrase limit depth .primary (.name function :: .openParen :: rest) = (do
      allow limit (depth + 1)
      let (argument, rest') ← readClosed limit (depth + 1) rest
      return (.call function argument, rest')) := by
  simp only [readPhrase, ← plain_readGroup]
  rw [readPrimary, enter_eq_allow]
  cases allow limit (depth + 1) with
  | error cause => rfl
  | ok _ =>
  dsimp only [bind, Except.bind]
  cases readGroup limit (depth + 1) rest with
  | error cause => rfl
  | ok argument => rfl

/-- A parenthesis opens a group, one level deeper. -/
theorem readPhrase_group (rest : List Token) :
    readPhrase limit depth .primary (.openParen :: rest) = (do
      allow limit (depth + 1)
      readClosed limit (depth + 1) rest) := by
  simp only [readPhrase, ← plain_readGroup]
  rw [readPrimary, enter_eq_allow]
  cases allow limit (depth + 1) with
  | error cause => rfl
  | ok _ =>
  dsimp only [bind, Except.bind]
  cases readGroup limit (depth + 1) rest with
  | error cause => rfl
  | ok inner => rfl

/-- A name with no parenthesis behind it stands for itself. -/
theorem readPhrase_name {rest : List Token} (h : ∀ rest', rest ≠ .openParen :: rest')
    (text : String) :
    readPhrase limit depth .primary (.name text :: rest) = .ok (.name text, rest) := by
  simp only [readPhrase]
  rw [readPrimary]
  · rfl
  · exact fun rest' hrest => h rest' hrest

/-- A number is an operand if it has a digit, and otherwise malformed. -/
theorem readPhrase_number (text : String) (rest : List Token) :
    readPhrase limit depth .primary (.number text :: rest) =
      match Literal.ofText? text with
      | some literal => .ok (.number literal, rest)
      | none => .error (.malformedNumber text) := by
  simp only [readPhrase]
  rw [readPrimary]
  cases Literal.ofText? text <;> rfl

/-- An operand that is missing at the end is reported as the end. -/
theorem readPhrase_primary_nil :
    readPhrase limit depth .primary [] = .error .endedEarly := by
  simp only [readPhrase]
  rw [readPrimary]; rfl

/-- No primary begins with a sign other than an opening parenthesis. -/
theorem readPhrase_primary_of_sign {token : Token} (hnumber : ∀ text, token ≠ .number text)
    (hname : ∀ text, token ≠ .name text) (hopen : token ≠ .openParen) (rest : List Token) :
    readPhrase limit depth .primary (token :: rest) = .error (.noOperand token) := by
  simp only [readPhrase]
  rw [readPrimary] <;> grind [Reading.plain, Except.map]

end Equations

/-- **Induction along the calls of the readers**: what holds of a phrase on a list of tokens, if it
does of the phrase that it begins with there and of all phrases on shorter lists, always holds. -/
theorem readers_induction {P : Phrase → List Token → Prop}
    (primary : ∀ tokens, (∀ rest : List Token, rest.length < tokens.length → P .sum rest) →
      P .primary tokens)
    (unary : ∀ tokens, P .primary tokens →
      (∀ rest : List Token, rest.length < tokens.length → P .unary rest) → P .unary tokens)
    (power : ∀ tokens, P .unary tokens →
      (∀ rest : List Token, rest.length < tokens.length → P .sum rest) → P .power tokens)
    (chain : ∀ rank tokens, P rank.operand tokens →
      (∀ rest : List Token, rest.length < tokens.length → P rank.operand rest) →
        P (.chain rank) tokens)
    (phrase : Phrase) (tokens : List Token) : P phrase tokens := by
  have hrest : ∀ (phrase : Phrase) (rest : List Token), rest.length < tokens.length →
      P phrase rest := fun phrase rest _ => readers_induction primary unary power chain phrase rest
  have hprimary : P .primary tokens := primary tokens (hrest .sum)
  have hunary : P .unary tokens := unary tokens hprimary (hrest .unary)
  have hpower : P .power tokens := power tokens hunary (hrest .sum)
  have hproduct : P (.chain .product) tokens := chain .product tokens hpower (hrest .power)
  match phrase with
  | .chain .sum => exact chain .sum tokens hproduct (hrest (.chain .product))
  | .chain .product => exact hproduct
  | .power => exact hpower
  | .unary => exact hunary
  | .primary => exact hprimary
termination_by tokens.length

end Expr
end QubitSphere
