/-
# Errors come at the first token that cannot go on

Whatever reading has come to, a few tokens complete it: an operand where one has to come, and then
what each open level awaits, from the innermost to the outermost (`exists_run_eq_ok`).  So tokens
can be gone on with as long as no step has refused one of them.

A step that refuses a token depends on that token and those before it alone.  Together this says
where errors come (`ofTokens_eq_error`): at the end of the tokens exactly if these begin something
that is read, and otherwise at the first token with which they do not, whatever stands behind it.
-/

import QubitSphere.Proofs.Expr.Positions

namespace QubitSphere

/-- Whether an error is one that comes at `found`, a token or the end of all tokens. -/
inductive SyntaxError.At : Option Token → SyntaxError → Prop
  | unexpected {expected : Token} (found : Option Token) :
      expected = .comma ∨ expected = .closeParen → At found (.unexpected expected found)
  | noOperand (token : Token) : At (some token) (.noOperand token)
  | endedEarly : At none .endedEarly
  | trailing (token : Token) : At (some token) (.trailing token)
  | malformedNumber (text : String) : At (some (.number text)) (.malformedNumber text)
  | tooDeep (token : Token) (limit : Nat) : At (some token) (.tooDeep limit)

/-- Whether an error says that more tokens had to come. -/
def SyntaxError.isAtEnd : SyntaxError → Bool
  | endedEarly | unexpected _ none => true
  | _ => false

namespace SyntaxError

variable {found : Option Token} {cause : SyntaxError}

/-- An error says that more had to come exactly if it comes at the end. -/
theorem At.isAtEnd_eq (h : At found cause) : cause.isAtEnd = found.isNone := by
  cases h with
  | unexpected found _ => cases found <;> rfl
  | noOperand | endedEarly | trailing | malformedNumber | tooDeep => rfl

/-- Only a comma or a closing parenthesis is ever expected. -/
theorem At.expected_eq (h : At found cause) {expected : Token} {found' : Option Token}
    (hcause : cause = .unexpected expected found') :
    expected = .comma ∨ expected = .closeParen := by
  subst hcause
  cases h with
  | unexpected _ hexpected => exact hexpected

/-- An error that names a token comes at that token. -/
theorem At.found_eq (h : At found cause) {token : Token}
    (hcause : cause = .noOperand token ∨ cause = .trailing token) : found = some token := by
  rcases hcause with rfl | rfl <;> cases h <;> rfl

end SyntaxError

namespace Expr

open Position

/-- An open level awaits a comma or a closing parenthesis. -/
theorem Level.awaits_eq (level : Level) : level.awaits = .comma ∨ level.awaits = .closeParen := by
  cases level with
  | base => exact .inl rfl
  | minus | group => exact .inr rfl

namespace Position

variable {limit : Option Nat}

/-! ### Which error comes where -/

/-- Opening a level fails only at the limit. -/
theorem exists_of_openLevel_eq_error {level : Level} {levels : List Level} {cause : SyntaxError}
    (h : openLevel limit level levels = .error cause) : ∃ most ∈ limit, cause = .tooDeep most := by
  cases hallow : allow limit (levels.length + 1) with
  | ok _ => rw [openLevel, hallow] at h; cases h
  | error cause' =>
    obtain ⟨most, hmost, -, rfl⟩ := allow_eq_error_iff.1 hallow
    rw [openLevel, hallow] at h
    cases h
    exact ⟨most, hmost, rfl⟩

/-- What refuses a token behind a complete operand comes at that token, and is no matter of depth.
-/
theorem at_of_stepComplete {levels : List Level} {token : Token} {cause : SyntaxError}
    (h : stepComplete levels token = .error cause) :
    cause.At (some token) ∧ ∀ most, cause ≠ .tooDeep most := by
  unfold stepComplete at h
  split at h
  case h_5 =>
    split at h
    · cases h
      exact ⟨.trailing token, by simp⟩
    · next level _ _ =>
      split at h
      · cases h
      · cases h
        exact ⟨.unexpected _ level.awaits_eq, by simp⟩
  all_goals cases h

/-- **Why a step refuses its token**: the token opens a level too many, or there is another error
that comes at it. -/
theorem refused_of_step {position : Position} {token : Token} {cause : SyntaxError}
    (h : position.step limit token = .error cause) :
    (∃ most ∈ limit, cause = .tooDeep most ∧ (token = .minus ∨ token = .openParen)) ∨
      (cause.At (some token) ∧ ∀ most, cause ≠ .tooDeep most) := by
  -- these are the two tokens that open a level
  have hopen {level : Level} {levels : List Level} (htoken : token = .minus ∨ token = .openParen)
      (h : openLevel limit level levels = .error cause) :
      ∃ most ∈ limit, cause = .tooDeep most ∧ (token = .minus ∨ token = .openParen) := by
    obtain ⟨most, hmost, hcause⟩ := exists_of_openLevel_eq_error h
    exact ⟨most, hmost, hcause, htoken⟩
  cases position with
  | operand levels =>
    cases token with
    | minus => exact .inl (hopen (.inl rfl) h)
    | openParen => exact .inl (hopen (.inr rfl) h)
    | name text => cases h
    | number text =>
      rw [step] at h
      cases hliteral : Literal.ofText? text with
      | some literal => rw [hliteral] at h; cases h
      | none => rw [hliteral] at h; cases h; exact .inr ⟨.malformedNumber text, by simp⟩
    | closeParen | comma | plus | star | slash => cases h; exact .inr ⟨.noOperand _, by simp⟩
  | name power levels =>
    cases token with
    | openParen => exact .inl (hopen (.inr rfl) h)
    | number | name | closeParen | comma | plus | minus | star | slash =>
      exact .inr (at_of_stepComplete h)
  | complete levels =>
    cases token <;> exact .inr (at_of_stepComplete h)

/-- **A step refuses its token with an error that comes at a token.** -/
theorem at_of_step {position : Position} {token : Token} {cause : SyntaxError}
    (h : position.step limit token = .error cause) : cause.At (some token) := by
  rcases refused_of_step h with ⟨most, -, rfl, -⟩ | ⟨hat, -⟩
  · exact .tooDeep token most
  · exact hat

/-- **All tokens end with an error that comes at the end.** -/
theorem at_of_finish {position : Position} {cause : SyntaxError}
    (h : position.finish = .error cause) : cause.At none := by
  have hlevels {levels : List Level} (h : (complete levels).finish = .error cause) :
      cause.At none := by
    rw [finish] at h
    split at h
    · cases h
    · next level _ _ =>
      cases h
      exact .unexpected none level.awaits_eq
  cases position with
  | operand levels => cases h; exact .endedEarly
  | name power levels => exact hlevels h
  | complete levels => exact hlevels h

/-- **Where tokens are refused**: at the end, or at the first token that a step refuses. -/
theorem exists_of_run_eq_error {position : Position} {tokens : List Token} {cause : SyntaxError}
    (h : run limit position tokens = .error cause) :
    (cause.At none ∧ ∃ next, steps limit position tokens = .ok next) ∨
      ∃ before token after next, tokens = before ++ token :: after ∧
        steps limit position before = .ok next ∧ next.step limit token = .error cause := by
  induction tokens generalizing position with
  | nil => exact .inl ⟨at_of_finish h, position, rfl⟩
  | cons token tokens ih =>
    rw [run_cons] at h
    cases hstep : position.step limit token with
    | error cause' =>
      rw [hstep] at h
      cases h
      exact .inr ⟨[], token, tokens, position, rfl, rfl, hstep⟩
    | ok next =>
      rw [hstep, ok_bind] at h
      have hsteps (before : List Token) :
          steps limit position (token :: before) = steps limit next before := by
        rw [steps, List.foldlM_cons, hstep]
        rfl
      rcases ih h with ⟨hat, last, hlast⟩ | ⟨before, token', after, last, htokens, hlast, hcause⟩
      · exact .inl ⟨hat, last, (hsteps tokens).trans hlast⟩
      · exact .inr ⟨token :: before, token', after, last, by rw [htokens]; rfl,
          (hsteps before).trans hlast, hcause⟩

/-! ### Completions -/

/-- The tokens that the open levels await, with a one for the second argument of a power. -/
def completion : List Level → List Token
  | [] => []
  | .minus :: levels => completion levels
  | .group :: levels => .closeParen :: completion levels
  | .base :: levels => .comma :: .number "1" :: .closeParen :: completion levels

/-- What completes open levels can be written. -/
theorem lexical_of_mem_completion {levels : List Level} {token : Token}
    (h : token ∈ completion levels) : token.Lexical := by
  induction levels with
  | nil => cases h
  | cons level levels ih =>
    cases level with
    | minus => exact ih h
    | group =>
      rcases List.mem_cons.1 h with rfl | h
      · exact True.intro
      · exact ih h
    | base =>
      simp only [completion, List.mem_cons] at h
      rcases h with rfl | rfl | rfl | h
      · exact True.intro
      · exact Token.lexical_one
      · exact True.intro
      · exact ih h

/-- No parenthesis opens in what completes open levels, so that a name before it stays a constant.
-/
theorem completion_ne_openParen (levels : List Level) (rest : List Token) :
    completion levels ≠ .openParen :: rest := by
  induction levels with
  | nil => exact nofun
  | cons level levels ih =>
    cases level with
    | minus => exact ih
    | group | base => exact fun h => Token.noConfusion (List.cons.inj h).1

/-- The number `1` can stand wherever an operand has to. -/
theorem step_operand_one (levels : List Level) :
    (operand levels).step limit (.number "1") = .ok (complete levels) := by
  rw [step, Literal.ofText?_of_lexical Token.lexical_one (by decide)]

/-- **Behind an operand the open levels can be closed.** -/
theorem run_completion (levels : List Level) :
    run limit (complete levels) (completion levels) = .ok () := by
  induction levels with
  | nil => rfl
  | cons level levels ih =>
    cases level with
    | minus => rw [run_complete_minus, completion]; exact ih
    | group => rw [completion, run_cons]; exact ih
    | base =>
      have hcomma : (complete (.base :: levels)).step limit .comma =
          .ok (operand (.group :: levels)) := rfl
      rw [completion, run_cons, hcomma, ok_bind, run_cons, step_operand_one, ok_bind, run_cons]
      exact ih

/-- **Every position can be completed.** -/
theorem exists_run_eq_ok (limit : Option Nat) (position : Position) :
    ∃ tokens, (∀ token ∈ tokens, token.Lexical) ∧ run limit position tokens = .ok () := by
  cases position with
  | operand levels =>
    refine ⟨.number "1" :: completion levels,
      List.forall_mem_cons.2 ⟨Token.lexical_one, fun _ => lexical_of_mem_completion⟩, ?_⟩
    rw [run_cons, step_operand_one, ok_bind, run_completion]
  | name power levels =>
    refine ⟨completion levels, fun _ => lexical_of_mem_completion, ?_⟩
    rw [run_name power levels (completion_ne_openParen levels), run_completion]
  | complete levels =>
    exact ⟨completion levels, fun _ => lexical_of_mem_completion, run_completion levels⟩

end Position

/-! ### Errors of the reader -/

variable {limit : Option Nat} {ts : List Token}

/-- Tokens are read exactly if the walk over positions accepts them. -/
theorem exists_ofTokens_eq_ok_iff :
    (∃ t, ofTokens limit ts = .ok t) ↔ run limit (.operand []) ts = .ok () := by
  rw [← ofTokens_eq_run]
  cases ofTokens limit ts with
  | error cause => exact ⟨nofun, nofun⟩
  | ok t => exact ⟨fun _ => rfl, fun _ => ⟨t, rfl⟩⟩

/-- Tokens are refused with the error of the walk over positions. -/
theorem ofTokens_eq_error_iff {cause : SyntaxError} :
    ofTokens limit ts = .error cause ↔ run limit (.operand []) ts = .error cause := by
  rw [← ofTokens_eq_run]
  cases ofTokens limit ts with
  | error cause' =>
    exact ⟨fun h => congrArg Except.error (Except.error.inj h),
      fun h => congrArg Except.error (Except.error.inj h)⟩
  | ok t => exact ⟨nofun, nofun⟩

/-- Whether tokens of a text can be put behind `ts` so that all are read. -/
def Completable (limit : Option Nat) (ts : List Token) : Prop :=
  ∃ us t, (∀ token ∈ us, token.Lexical) ∧ ofTokens limit (ts ++ us) = .ok t

/-- Tokens that no step refuses can be completed. -/
theorem completable_of_steps {position : Position}
    (h : steps limit (.operand []) ts = .ok position) : Completable limit ts := by
  obtain ⟨us, hlex, hus⟩ := exists_run_eq_ok limit position
  have hrun : run limit (.operand []) (ts ++ us) = .ok () := by rw [run_append, h, ok_bind, hus]
  obtain ⟨t, ht⟩ := exists_ofTokens_eq_ok_iff.2 hrun
  exact ⟨us, t, hlex, ht⟩

/-- **An error comes at the end exactly if the tokens can be completed, and otherwise at the first
token with which they cannot, whatever stands behind it.** -/
theorem ofTokens_eq_error {cause : SyntaxError} (h : ofTokens limit ts = .error cause) :
    (cause.isAtEnd = true → Completable limit ts) ∧
      (cause.isAtEnd = false → ∃ i < ts.length, Completable limit (ts.take i) ∧
        ∀ us, ts.take (i + 1) <+: us → ofTokens limit us = .error cause) ∧
      (∀ expected found, cause = .unexpected expected found →
        expected = .comma ∨ expected = .closeParen) ∧
      ∀ found, cause = .noOperand found ∨ cause = .trailing found → found ∈ ts := by
  rcases exists_of_run_eq_error (ofTokens_eq_error_iff.1 h) with
    ⟨hat, position, hsteps⟩ | ⟨before, token, after, position, rfl, hsteps, hstep⟩
  · refine ⟨fun _ => completable_of_steps hsteps, fun hend => ?_, fun _ _ => hat.expected_eq,
      fun _ hfound => absurd (hat.found_eq hfound) nofun⟩
    rw [hat.isAtEnd_eq] at hend
    cases hend
  · have hat := at_of_step hstep
    refine ⟨fun hend => ?_, fun _ => ⟨before.length, by simp, ?_, ?_⟩, fun _ _ => hat.expected_eq,
      fun _ hfound => ?_⟩
    · rw [hat.isAtEnd_eq] at hend
      cases hend
    · rw [List.take_left]
      exact completable_of_steps hsteps
    · rintro us ⟨rest, rfl⟩
      -- what stands behind the token is not looked at
      rw [List.take_length_add_append, ofTokens_eq_error_iff, List.append_assoc, run_append,
        hsteps, ok_bind, List.take_succ_cons, List.take_zero, List.singleton_append, run_cons,
        hstep]
      rfl
    · rw [← Option.some.inj (hat.found_eq hfound)]
      simp

/-- `(1 2` is refused for its second number, and `pow(1` for its end. -/
theorem completable_openLevels :
    ofTokens (some maxDepth) [.name "pow", .openParen, .number "1"] =
        .error (.unexpected .comma none) ∧
      Completable (some maxDepth) [.name "pow", .openParen, .number "1"] ∧
      ofTokens (some maxDepth) [.openParen, .number "1", .number "2"] =
        .error (.unexpected .closeParen (some (.number "2"))) ∧
      ∃ i < 3, Completable (some maxDepth) ([.openParen, .number "1", .number "2"].take i) ∧
        ∀ us, [.openParen, .number "1", .number "2"].take (i + 1) <+: us →
          ofTokens (some maxDepth) us = .error (.unexpected .closeParen (some (.number "2"))) := by
  have hend : ofTokens (some maxDepth) [.name "pow", .openParen, .number "1"] =
      .error (.unexpected .comma none) := ofTokens_eq_error_iff.2 rfl
  have htoken : ofTokens (some maxDepth) [.openParen, .number "1", .number "2"] =
      .error (.unexpected .closeParen (some (.number "2"))) := ofTokens_eq_error_iff.2 rfl
  exact ⟨hend, (ofTokens_eq_error hend).1 rfl, htoken, (ofTokens_eq_error htoken).2.1 rfl⟩

end Expr
end QubitSphere
