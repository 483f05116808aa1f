/-
# Reading token by token

What the readers have come to after some tokens is a `Position`: what may come next, and the levels
open around it.  Each token leads from one position to the next or is refused (`Position.step`):

| position | token | leads to |
| --- | --- | --- |
| an operand has to come | `-` | an operand, one level deeper |
| | `(` | an operand, one level deeper |
| | a name | behind a name |
| | a number other than `.` | behind an operand |
| behind a name | `(` | an operand, one level deeper |
| | any other | as behind an operand |
| behind an operand | `+`, `-`, `*` or `/` | an operand |
| | `,` that a power awaits | an operand |
| | `)` that the innermost level awaits | behind an operand, one level further out |

Minus signs close with their operand.  `pow` opens the first of two arguments, unless it stands
right behind a minus sign, where a call takes one argument.

Reading all tokens comes to the same errors as taking these steps one after another
(`ofTokens_eq_run`).  The argument is that of soundness: one lemma for each reader, which relies on
the readers that it begins with and on all readers of fewer tokens, put together by
`readers_induction` (`follows`).
-/

import QubitSphere.Proofs.Expr.Recognition

namespace QubitSphere
namespace Expr

/-- A level that is open. -/
inductive Level where
  /-- A minus sign in front of an operand. -/
  | minus
  /-- A parenthesis around a sum, or before the last argument of a call. -/
  | group
  /-- A parenthesis before the first argument of a power. -/
  | base
deriving DecidableEq

/-- The token that closes a level, or its first argument. -/
def Level.awaits : Level → Token
  | base => .comma
  | minus | group => .closeParen

/-- What reading has come to, with the open levels around it, the innermost first. -/
inductive Position where
  /-- An operand has to come. -/
  | operand (levels : List Level)
  /-- Behind a name; `power` tells whether a parenthesis opens a power here. -/
  | name (power : Bool) (levels : List Level)
  /-- Behind an operand. -/
  | complete (levels : List Level)

namespace Position

/-- The levels left open behind an operand: it closes the minus signs in front of it. -/
def closeMinus (levels : List Level) : List Level :=
  levels.dropWhile (· = .minus)

/-- Where the token that a level awaits leads to. -/
def close : Level → List Level → Position
  | .base, levels => operand (.group :: levels)
  | .minus, levels | .group, levels => complete levels

/-- Takes a token behind an operand. -/
def stepComplete (levels : List Level) (token : Token) : Except SyntaxError Position :=
  match token with
  | .plus | .minus | .star | .slash => .ok (operand (closeMinus levels))
  | token =>
    match closeMinus levels with
    | [] => .error (.trailing token)
    | level :: levels =>
      if token = level.awaits then .ok (close level levels)
      else .error (.unexpected level.awaits (some token))

/-- Opens a level, with an operand to come in it. -/
def openLevel (limit : Option Nat) (level : Level) (levels : List Level) :
    Except SyntaxError Position := do
  allow limit (levels.length + 1)
  return operand (level :: levels)

/-- Takes a token. -/
def step (limit : Option Nat) : Position → Token → Except SyntaxError Position
  | operand levels, .minus => openLevel limit .minus levels
  | operand levels, .openParen => openLevel limit .group levels
  | operand levels, .name text => .ok (name (text = "pow" && levels.head? ≠ some .minus) levels)
  | operand levels, .number text =>
    match Literal.ofText? text with
    | some _ => .ok (complete levels)
    | none => .error (.malformedNumber text)
  | operand _, token => .error (.noOperand token)
  | name power levels, .openParen => openLevel limit (if power then .base else .group) levels
  | name _ levels, token | complete levels, token => stepComplete levels token

/-- Whether all tokens may end here. -/
def finish : Position → Except SyntaxError Unit
  | operand _ => .error .endedEarly
  | name _ levels | complete levels =>
    match closeMinus levels with
    | [] => .ok ()
    | level :: _ => .error (.unexpected level.awaits none)

/-- Takes tokens one after another. -/
def steps (limit : Option Nat) (position : Position) (tokens : List Token) :
    Except SyntaxError Position :=
  tokens.foldlM (step limit) position

/-- Takes all tokens that there are. -/
def run (limit : Option Nat) (position : Position) (tokens : List Token) :
    Except SyntaxError Unit := do
  (← steps limit position tokens).finish

variable {limit : Option Nat}

theorem run_nil (position : Position) : run limit position [] = position.finish := rfl

theorem run_cons (position : Position) (token : Token) (tokens : List Token) :
    run limit position (token :: tokens) = (do
      let next ← position.step limit token
      run limit next tokens) := by
  rw [run, steps, List.foldlM_cons, bind_assoc]
  rfl

/-- A walk over two lists takes the steps of the first and goes on with the second. -/
theorem run_append (position : Position) (tokens tokens' : List Token) :
    run limit position (tokens ++ tokens') = (do
      let next ← steps limit position tokens
      run limit next tokens') := by
  rw [run, steps, List.foldlM_append, bind_assoc]
  rfl

/-- Behind a name there is an operand, unless it is called. -/
theorem run_name (power : Bool) (levels : List Level) {tokens : List Token}
    (h : ∀ rest, tokens ≠ .openParen :: rest) :
    run limit (name power levels) tokens = run limit (complete levels) tokens := by
  match tokens with
  | [] => rfl
  | token :: rest =>
    have htoken : token ≠ .openParen := fun heq => h rest (by rw [heq])
    rw [run_cons, run_cons]
    cases token <;> first | rfl | exact absurd rfl htoken

/-- Behind an operand a minus sign in front of it makes no difference: the operand closes it. -/
theorem step_complete_minus (levels : List Level) (token : Token) :
    (complete (.minus :: levels)).step limit token = (complete levels).step limit token := by
  cases token <;> rfl

/-- An operand closes the minus sign in front of it. -/
theorem run_complete_minus (levels : List Level) (tokens : List Token) :
    run limit (complete (.minus :: levels)) tokens = run limit (complete levels) tokens := by
  match tokens with
  | [] => rfl
  | token :: rest => rw [run_cons, run_cons, step_complete_minus]

/-- Nothing is closed where no minus sign is the innermost level. -/
theorem closeMinus_eq_self {levels : List Level} (h : levels.head? ≠ some .minus) :
    closeMinus levels = levels := by
  match levels with
  | [] => rfl
  | level :: levels =>
    have hlevel : level ≠ .minus := fun heq => h (by rw [heq]; rfl)
    exact List.dropWhile_cons_of_neg (by simpa using hlevel)

/-- Behind an operand the sign of an operation asks for the next operand. -/
theorem step_complete_sign {rank : Rank} {sign : Token} {operation : Operation}
    (h : rank.operation? sign = some operation) {levels : List Level}
    (hlevels : levels.head? ≠ some .minus) :
    (complete levels).step limit sign = .ok (operand levels) := by
  have hstep : (complete levels).step limit sign = .ok (operand (closeMinus levels)) := by
    cases rank <;> cases sign <;> cases h <;> rfl
  rw [hstep, closeMinus_eq_self hlevels]

/-- Behind an operand a token that is no such sign has to be what the innermost level awaits, or the
text has ended before it. -/
theorem step_complete_of_none {token : Token} (h : ∀ rank : Rank, rank.operation? token = none)
    (levels : List Level) :
    (complete levels).step limit token =
      match closeMinus levels with
      | [] => .error (.trailing token)
      | level :: levels =>
        if token = level.awaits then .ok (close level levels)
        else .error (.unexpected level.awaits (some token)) := by
  cases token <;>
    first | rfl | exact absurd (h .sum) (by decide) | exact absurd (h .product) (by decide)

/-- **What closes a level behind a sum is the token that the level awaits.** -/
theorem run_complete_cons {level : Level} (hlevel : level ≠ .minus) (levels : List Level)
    {tokens : List Token}
    (h : ∀ token ∈ tokens.head?, ∀ rank : Rank, rank.operation? token = none) :
    run limit (complete (level :: levels)) tokens = (do
      let rest ← take level.awaits tokens
      run limit (close level levels) rest) := by
  have hclose : closeMinus (level :: levels) = level :: levels :=
    closeMinus_eq_self (by simpa using hlevel)
  match tokens with
  | [] => rw [run_nil, finish, hclose]; rfl
  | token :: rest =>
    rw [run_cons, step_complete_of_none (h token rfl), hclose]
    dsimp only
    by_cases htoken : token = level.awaits
    · rw [if_pos htoken, htoken, take_cons]; rfl
    · rw [if_neg htoken, take, expect, if_neg htoken]; rfl

end Position

open Position

variable {limit : Option Nat} {depth : Nat}

/-- Two ways to go on agree if they do on what was found. -/
theorem bind_congr_ok {ε α β : Type} {found : Except ε α} {next next' : α → Except ε β}
    (h : ∀ a, found = .ok a → next a = next' a) : (found >>= next) = (found >>= next') := by
  cases found with
  | error cause => rfl
  | ok a => exact h a rfl

/-! ### Where chains end -/

/-- **Reading a phrase takes at least one token**, so the readers come to an end. -/
theorem length_lt_of_readPhrase {phrase : Phrase} {tokens rest : List Token} {t : Expr}
    (h : readPhrase limit depth phrase tokens = .ok (t, rest)) : rest.length < tokens.length := by
  cases phrase <;> exact Reading.length_lt h

/-- A chain ends before a token that is no sign of its rank, and where its operands may end. -/
theorem readTail_ends {rank : Rank} {Ends : List Token → Prop}
    (hoperand : ∀ {tokens : List Token} {t : Expr} {rest : List Token},
      readPhrase limit depth rank.operand tokens = .ok (t, rest) → Ends rest)
    {first t : Expr} {tokens rest : List Token} (htokens : Ends tokens)
    (h : readTail limit depth rank first tokens = .ok (t, rest)) :
    Ends rest ∧ ∀ token ∈ rest.head?, rank.operation? token = none := by
  match tokens with
  | [] =>
    rw [readTail_nil] at h
    cases h
    exact ⟨htokens, by simp⟩
  | sign :: tokens =>
    cases hsign : rank.operation? sign with
    | none =>
      rw [readTail_cons_of_none _ _ hsign] at h
      cases h
      exact ⟨htokens, by simpa using hsign⟩
    | some operation =>
      rw [readTail_cons_of_some _ _ hsign] at h
      obtain ⟨⟨next, rest₁⟩, hnext, htail⟩ := bind_eq_ok_iff.1 h
      exact readTail_ends hoperand (hoperand hnext) htail
termination_by tokens.length
decreasing_by exact Nat.lt_succ_of_lt (length_lt_of_readPhrase hnext)

/-- A chain ends where its operands end, and before no sign of its own rank. -/
theorem readPhrase_chain_ends (rank : Rank) (Ends : List Token → Prop)
    (hoperand : ∀ {tokens : List Token} {t : Expr} {rest : List Token},
      readPhrase limit depth rank.operand tokens = .ok (t, rest) → Ends rest)
    {t : Expr} {tokens rest : List Token}
    (h : readPhrase limit depth (.chain rank) tokens = .ok (t, rest)) :
    Ends rest ∧ ∀ token ∈ rest.head?, rank.operation? token = none := by
  rw [readPhrase_chain] at h
  obtain ⟨⟨first, rest₁⟩, hfirst, htail⟩ := bind_eq_ok_iff.1 h
  exact readTail_ends hoperand (hoperand hfirst) htail

/-- **No sign comes right behind a sum.** -/
theorem readPhrase_sum_ends {t : Expr} {tokens rest : List Token}
    (h : readPhrase limit depth .sum tokens = .ok (t, rest)) :
    ∀ token ∈ rest.head?, ∀ rank : Rank, rank.operation? token = none := by
  have hproduct {tokens : List Token} {t : Expr} {rest : List Token}
      (h : readPhrase limit depth (.chain .product) tokens = .ok (t, rest)) :
      ∀ token ∈ rest.head?, Rank.product.operation? token = none :=
    (readPhrase_chain_ends .product (fun _ => True) (fun _ => True.intro) h).2
  obtain ⟨hend, hend'⟩ := readPhrase_chain_ends .sum
    (fun rest => ∀ token ∈ rest.head?, Rank.product.operation? token = none) hproduct h
  intro token htoken rank
  cases rank with
  | sum => exact hend' token htoken
  | product => exact hend token htoken

/-! ### The readers and the steps -/

/-- Whether the reader of a phrase is the one that reads `tokens` where an operand has to come. -/
def Phrase.Reads (levels : List Level) (tokens : List Token) : Phrase → Prop
  | .chain _ | .power => levels.head? ≠ some .minus
  | .unary => levels.head? = some .minus ∨ ¬ [.name "pow", .openParen] <+: tokens
  | .primary => (levels.head? = some .minus ∨ ¬ [.name "pow", .openParen] <+: tokens) ∧
      ∀ rest, tokens ≠ .minus :: rest

/-- Whether reading a phrase off `tokens` comes to what their tokens lead to step by step. -/
def Follows (limit : Option Nat) (phrase : Phrase) (tokens : List Token) : Prop :=
  ∀ ⦃levels : List Level⦄, phrase.Reads levels tokens →
    run limit (.operand levels) tokens = (do
      let (_, rest) ← readPhrase limit levels.length phrase tokens
      run limit (.complete levels) rest)

/-- A token that opens a level. -/
theorem run_open {position : Position} {token : Token} {level : Level} {levels : List Level}
    (h : position.step limit token = openLevel limit level levels) (tokens : List Token) :
    run limit position (token :: tokens) = (do
      allow limit (levels.length + 1)
      run limit (.operand (level :: levels)) tokens) := by
  rw [run_cons, h, openLevel, bind_assoc]
  rfl

/-- The tail of a chain leads, step by step, to where reading it comes; the induction is on the
tokens. -/
theorem run_tail {rank : Rank} {n : Nat}
    (hoperand : ∀ tokens : List Token, tokens.length < n → Follows limit rank.operand tokens)
    {levels : List Level} (hlevels : levels.head? ≠ some .minus) (first : Expr)
    {tokens : List Token} (hn : tokens.length ≤ n) :
    run limit (.complete levels) tokens = (do
      let (_, rest) ← readTail limit levels.length rank first tokens
      run limit (.complete levels) rest) := by
  match tokens with
  | [] => rw [readTail_nil]; rfl
  | sign :: tokens =>
    cases hsign : rank.operation? sign with
    | none => rw [readTail_cons_of_none _ _ hsign]; rfl
    | some operation =>
      have hreads : rank.operand.Reads levels tokens := by cases rank <;> exact hlevels
      rw [readTail_cons_of_some _ _ hsign, run_cons, step_complete_sign hsign hlevels, ok_bind,
        hoperand tokens hn hreads, bind_assoc]
      refine bind_congr_ok fun (next, rest) hnext => ?_
      have hlt := length_lt_of_readPhrase hnext
      exact run_tail hoperand hlevels _ (by rw [List.length_cons] at hn; omega)
termination_by tokens.length
decreasing_by exact Nat.lt_succ_of_lt hlt

/-- **A chain** leads to where reading it comes, if its operands do. -/
theorem Follows.chain {rank : Rank} {tokens : List Token} (h : Follows limit rank.operand tokens)
    (hrest : ∀ rest : List Token, rest.length < tokens.length → Follows limit rank.operand rest) :
    Follows limit (.chain rank) tokens := by
  intro levels hlevels
  have hreads : rank.operand.Reads levels tokens := by cases rank <;> exact hlevels
  rw [h hreads, readPhrase_chain, bind_assoc]
  refine bind_congr_ok fun (first, rest) hfirst => ?_
  exact run_tail hrest hlevels first (length_lt_of_readPhrase hfirst).le

/-- A sum in a level, and the token that the level awaits. -/
theorem Follows.closed {tokens : List Token} (h : Follows limit .sum tokens) {level : Level}
    (hlevel : level ≠ .minus) (levels : List Level) :
    run limit (.operand (level :: levels)) tokens = (do
      let (_, rest) ← readPhrase limit (levels.length + 1) .sum tokens
      let rest' ← take level.awaits rest
      run limit (.close level levels) rest') := by
  have hreads : Phrase.sum.Reads (level :: levels) tokens := by simpa [Phrase.Reads] using hlevel
  rw [h hreads, List.length_cons]
  refine bind_congr_ok fun (inner, rest) hread => ?_
  exact run_complete_cons hlevel levels (readPhrase_sum_ends hread)

/-- **What closes a group** leads to where reading it comes: the level is closed by the token it
awaits. -/
theorem Follows.group {tokens : List Token} (h : Follows limit .sum tokens) (levels : List Level) :
    run limit (.operand (.group :: levels)) tokens = (do
      let (_, rest) ← readClosed limit (levels.length + 1) tokens
      run limit (.complete levels) rest) := by
  have hlevel : Level.group ≠ .minus := by decide
  rw [h.closed hlevel, readClosed]
  simp only [bind_assoc]
  rfl

/-- **A power** leads to where reading it comes: its first parenthesis awaits a comma, which opens
the level of the second argument in its place. -/
theorem Follows.power {tokens : List Token} (h : Follows limit .unary tokens)
    (hrest : ∀ rest : List Token, rest.length < tokens.length → Follows limit .sum rest) :
    Follows limit .power tokens := by
  intro levels hlevels
  by_cases hpow : [.name "pow", .openParen] <+: tokens
  · obtain ⟨tokens, rfl⟩ := hpow
    have hlevels' : levels.head? ≠ some .minus := hlevels
    have hbase : Level.base ≠ .minus := by decide
    have hname : (operand levels).step limit (.name "pow") = .ok (Position.name true levels) := by
      simp [step, hlevels']
    have hopen : (Position.name true levels).step limit .openParen =
        openLevel limit .base levels := rfl
    have hshort : tokens.length < ([Token.name "pow", .openParen] ++ tokens).length := by
      rw [List.length_append]
      exact Nat.lt_add_of_pos_left Nat.two_pos
    rw [List.cons_append, List.singleton_append, readPhrase_pow, run_cons, hname, ok_bind,
      run_open hopen, bind_assoc]
    refine bind_congr_ok fun _ _ => ?_
    rw [(hrest tokens hshort).closed hbase, bind_assoc]
    simp only [bind_assoc]
    refine bind_congr_ok fun (base, rest) hread => bind_congr_ok fun rest' hcomma => ?_
    have hrest' : rest = .comma :: rest' := eq_cons_of_take hcomma
    have hlt := length_lt_of_readPhrase hread
    rw [hrest', List.length_cons] at hlt
    rw [close, (hrest rest' (by omega)).group, readClosed]
    simp only [bind_assoc, pure_bind]
  · rw [readPhrase_power_of_not_pow _ _ hpow]
    exact h (.inr hpow)

/-- **A unary** leads to where reading it comes: its minus sign is a level until the operand is
complete. -/
theorem Follows.unary {tokens : List Token} (h : Follows limit .primary tokens)
    (hrest : ∀ rest : List Token, rest.length < tokens.length → Follows limit .unary rest) :
    Follows limit .unary tokens := by
  intro levels hlevels
  by_cases hminus : ∃ tokens', tokens = .minus :: tokens'
  · obtain ⟨tokens, rfl⟩ := hminus
    rw [run_open rfl, readPhrase_minus, hrest tokens (by simp) (.inl rfl)]
    simp only [bind_assoc, pure_bind, run_complete_minus]
    rfl
  · have hne : ∀ rest, tokens ≠ .minus :: rest := fun rest h => hminus ⟨rest, h⟩
    rw [readPhrase_unary_of_not_minus _ _ hne]
    exact h ⟨hlevels, hne⟩

/-- **A primary** leads to where reading it comes, if the sum behind its parenthesis does. -/
theorem Follows.primary {tokens : List Token}
    (hrest : ∀ rest : List Token, rest.length < tokens.length → Follows limit .sum rest) :
    Follows limit .primary tokens := by
  rintro levels ⟨hlevels, hminus⟩
  match tokens with
  | [] => rw [readPhrase_primary_nil]; rfl
  | .number text :: tokens =>
    rw [run_cons, step, readPhrase_number]
    cases Literal.ofText? text <;> rfl
  | .openParen :: tokens =>
    rw [run_open rfl, readPhrase_group, (hrest tokens (by simp)).group, bind_assoc]
  | .name text :: tokens =>
    by_cases hcall : ∃ tokens', tokens = .openParen :: tokens'
    · obtain ⟨tokens, rfl⟩ := hcall
      -- right behind a minus sign `pow` is called like any other name
      have hname : (operand levels).step limit (.name text) = .ok (Position.name false levels) := by
        rcases hlevels with hlevels | hpow
        · simp [step, hlevels]
        · have htext : text ≠ "pow" := fun htext => hpow ⟨tokens, by rw [htext]; rfl⟩
          simp [step, htext]
      have hopen : (Position.name false levels).step limit .openParen =
          openLevel limit .group levels := rfl
      have hshort : tokens.length < (Token.name text :: .openParen :: tokens).length :=
        Nat.lt_add_of_pos_right Nat.two_pos
      rw [run_cons, hname, ok_bind, run_open hopen, readPhrase_call, (hrest tokens hshort).group]
      simp only [bind_assoc, pure_bind]
    · have hne : ∀ rest, tokens ≠ .openParen :: rest := fun rest h => hcall ⟨rest, h⟩
      rw [readPhrase_name _ _ hne, run_cons, step, ok_bind, run_name _ _ hne]
      rfl
  | .minus :: tokens => exact absurd rfl (hminus tokens)
  | .closeParen :: _ | .comma :: _ | .plus :: _ | .star :: _ | .slash :: _ =>
    rw [readPhrase_primary_of_sign _ _ (by simp) (by simp) (by simp)]
    rfl

/-- **Reading a phrase comes to what the steps lead to.** -/
theorem follows (limit : Option Nat) (phrase : Phrase) (tokens : List Token) :
    Follows limit phrase tokens :=
  readers_induction (fun _ => .primary) (fun _ => .unary) (fun _ => .power) (fun _ _ => .chain)
    phrase tokens

/-- **All tokens are read exactly if the steps take them all, and else for the same error.** -/
theorem ofTokens_eq_run (limit : Option Nat) (tokens : List Token) :
    (ofTokens limit tokens).map (fun _ => ()) = run limit (.operand []) tokens := by
  have hreads : Phrase.sum.Reads [] tokens := nofun
  rw [Expr.ofTokens_eq, follows limit .sum tokens hreads, List.length_nil]
  cases hread : readPhrase limit 0 .sum tokens with
  | error cause => rfl
  | ok found =>
    obtain ⟨t, rest⟩ := found
    match rest with
    | [] => rfl
    | token :: rest =>
      have hends := readPhrase_sum_ends hread token rfl
      rw [ok_bind, ok_bind]
      dsimp only
      rw [run_cons, step_complete_of_none hends]
      rfl

end Expr
end QubitSphere
