/-
# What the limit on open levels changes

A reader with a limit does what the reader without one does, up to where that would open one level
too many: there it stops with `tooDeep`.  Whether the reader without a limit ever comes to have so
many levels open is told by the calls that it makes (`Enters`):

| reader | calls |
| --- | --- |
| chain | the reader of its operand, and again behind every sign that comes behind an operand |
| `pow (` | one level deeper, the reader of sums, and again behind the comma |
| `-` | one level deeper, the reader of unaries |
| `name (`, `(` | one level deeper, the reader of sums |

A call comes about only if all that comes before it was read, so nothing behind the first error
counts.  The two readers are compared as in the proof of soundness: one lemma for each reader, which
relies on the readers that it begins with and on all readers of fewer tokens (`limited`).

The token that opens one level too many is a sign, so that the text is cut behind it.  Whatever
follows there, the text is too deep (`exists_of_tooDeep`).
-/

import QubitSphere.Proofs.Expr.FirstError

namespace QubitSphere
namespace Expr

/-- Whether reading a phrase off `tokens` without a limit, inside `depth` open levels, comes to have
`level` levels open before it ends or fails. -/
inductive Enters (level : Nat) : Nat → Phrase → List Token → Prop
  | here {depth : Nat} {phrase : Phrase} {tokens : List Token} :
      level ≤ depth → Enters level depth phrase tokens
  | operand {depth : Nat} {rank : Rank} {tokens : List Token} :
      Enters level depth rank.operand tokens → Enters level depth (.chain rank) tokens
  | next {depth : Nat} {rank : Rank} {tokens rest : List Token} {t : Expr} {sign : Token}
      {operation : Operation} :
      readPhrase none depth rank.operand tokens = .ok (t, sign :: rest) →
      rank.operation? sign = some operation → Enters level depth (.chain rank) rest →
      Enters level depth (.chain rank) tokens
  | base {depth : Nat} {rest : List Token} :
      Enters level (depth + 1) .sum rest →
      Enters level depth .power (.name "pow" :: .openParen :: rest)
  | exponent {depth : Nat} {rest rest' : List Token} {t : Expr} :
      readPhrase none (depth + 1) .sum rest = .ok (t, .comma :: rest') →
      Enters level (depth + 1) .sum rest' →
      Enters level depth .power (.name "pow" :: .openParen :: rest)
  | unary {depth : Nat} {tokens : List Token} :
      ¬ [.name "pow", .openParen] <+: tokens → Enters level depth .unary tokens →
      Enters level depth .power tokens
  | negate {depth : Nat} {rest : List Token} :
      Enters level (depth + 1) .unary rest → Enters level depth .unary (.minus :: rest)
  | primary {depth : Nat} {tokens : List Token} :
      (∀ rest, tokens ≠ .minus :: rest) → Enters level depth .primary tokens →
      Enters level depth .unary tokens
  | call {depth : Nat} {function : String} {rest : List Token} :
      Enters level (depth + 1) .sum rest →
      Enters level depth .primary (.name function :: .openParen :: rest)
  | group {depth : Nat} {rest : List Token} :
      Enters level (depth + 1) .sum rest → Enters level depth .primary (.openParen :: rest)

/-! ### Where levels are entered -/

section Enters

variable {level depth : Nat} {tokens rest : List Token}

/-- Whether the chain that goes on with `rest` comes to have `level` levels open. -/
def EntersTail (level depth : Nat) (rank : Rank) (rest : List Token) : Prop :=
  ∃ sign operation rest', rest = sign :: rest' ∧ rank.operation? sign = some operation ∧
    Enters level depth (.chain rank) rest'

/-- Once enough levels are open, they are with one more. -/
theorem Enters.deeper {phrase : Phrase} (h : level ≤ depth) :
    Enters level (depth + 1) phrase tokens :=
  .here (Nat.le_succ_of_le h)

/-- A chain opens levels in its first operand, or behind it once that was read. -/
theorem enters_chain_iff {rank : Rank} :
    Enters level depth (.chain rank) tokens ↔
      Enters level depth rank.operand tokens ∨
        ∃ found, readPhrase none depth rank.operand tokens = .ok found ∧
          EntersTail level depth rank found.2 := by
  constructor
  · intro h
    cases h with
    | here hle => exact .inl (.here hle)
    | operand h => exact .inl h
    | next hread hsign h => exact .inr ⟨_, hread, _, _, _, rfl, hsign, h⟩
  · rintro (h | ⟨⟨t, rest⟩, hread, sign, operation, rest', rfl, hsign, h⟩)
    · exact .operand h
    · exact .next hread hsign h

/-- A chain that has ended opens no more levels. -/
theorem not_entersTail_nil {rank : Rank} : ¬ EntersTail level depth rank [] := by
  rintro ⟨_, _, _, h, -⟩
  cases h

/-- A chain goes on only behind a sign of its rank, and opens levels as a chain does there. -/
theorem entersTail_cons_iff {rank : Rank} {sign : Token} :
    EntersTail level depth rank (sign :: rest) ↔
      (∃ operation, rank.operation? sign = some operation) ∧
        Enters level depth (.chain rank) rest := by
  constructor
  · rintro ⟨_, operation, _, htokens, hsign, h⟩
    cases htokens
    exact ⟨⟨operation, hsign⟩, h⟩
  · rintro ⟨⟨operation, hsign⟩, h⟩
    exact ⟨sign, operation, rest, rfl, hsign, h⟩

/-- A power opens a level, and more in its base or, once base and comma were read, in its exponent.
-/
theorem enters_pow_iff :
    Enters level depth .power (.name "pow" :: .openParen :: rest) ↔
      Enters level (depth + 1) .sum rest ∨
        ∃ found, readPhrase none (depth + 1) .sum rest = .ok found ∧
          ∃ rest', take .comma found.2 = .ok rest' ∧ Enters level (depth + 1) .sum rest' := by
  constructor
  · intro h
    cases h with
    | here hle => exact .inl (.deeper hle)
    | base h => exact .inl h
    | exponent hread h => exact .inr ⟨_, hread, _, take_cons _ _, h⟩
    | unary hpow _ => exact absurd ⟨rest, rfl⟩ hpow
  · rintro (h | ⟨⟨t, rest₁⟩, hread, rest', hcomma, h⟩)
    · exact .base h
    · obtain rfl := eq_cons_of_take hcomma
      exact .exponent hread h

/-- What is no power opens the levels of a unary. -/
theorem enters_power_iff (hpow : ¬ [.name "pow", .openParen] <+: tokens) :
    Enters level depth .power tokens ↔ Enters level depth .unary tokens := by
  refine ⟨fun h => ?_, .unary hpow⟩
  cases h with
  | here hle => exact .here hle
  | base | exponent => exact absurd ⟨_, rfl⟩ hpow
  | unary _ h => exact h

/-- A minus sign opens a level for what it negates. -/
theorem enters_minus_iff :
    Enters level depth .unary (.minus :: rest) ↔ Enters level (depth + 1) .unary rest := by
  refine ⟨fun h => ?_, .negate⟩
  cases h with
  | here hle => exact .deeper hle
  | negate h => exact h
  | primary hminus _ => exact absurd rfl (hminus rest)

/-- A unary without a minus sign opens the levels of a primary. -/
theorem enters_unary_iff (hminus : ∀ rest, tokens ≠ .minus :: rest) :
    Enters level depth .unary tokens ↔ Enters level depth .primary tokens := by
  refine ⟨fun h => ?_, .primary hminus⟩
  cases h with
  | here hle => exact .here hle
  | negate => exact absurd rfl (hminus _)
  | primary _ h => exact h

/-- A call opens a level for its argument. -/
theorem enters_call_iff {function : String} :
    Enters level depth .primary (.name function :: .openParen :: rest) ↔
      Enters level (depth + 1) .sum rest := by
  refine ⟨fun h => ?_, .call⟩
  cases h with
  | here hle => exact .deeper hle
  | call h => exact h

/-- A parenthesis opens a level for the sum in it. -/
theorem enters_group_iff :
    Enters level depth .primary (.openParen :: rest) ↔ Enters level (depth + 1) .sum rest := by
  refine ⟨fun h => ?_, .group⟩
  cases h with
  | here hle => exact .deeper hle
  | group h => exact h

/-- A primary without a parenthesis opens no level. -/
theorem Enters.le_of_primary (h : Enters level depth .primary tokens)
    (hcall : ∀ function rest, tokens ≠ .name function :: .openParen :: rest)
    (hgroup : ∀ rest, tokens ≠ .openParen :: rest) : level ≤ depth := by
  cases h with
  | here hle => exact hle
  | call => exact absurd rfl (hcall _ _)
  | group => exact absurd rfl (hgroup _)

end Enters

/-! ### Readings that are cut off -/

/-- Whether `found` is cut off by the limit if `deep`, and the same as without a limit if not. -/
def CutOff {α : Type} (most : Nat) (deep : Prop) (found unlimited : Except SyntaxError α) : Prop :=
  (deep → found = .error (.tooDeep most)) ∧ (¬ deep → found = unlimited)

namespace CutOff

variable {α β : Type} {most : Nat} {deep deep' : Prop} {found unlimited : Except SyntaxError α}

/-- Whether a reading is cut off may be told in other words. -/
theorem congr (h : CutOff most deep found unlimited) (hdeep : deep' ↔ deep) :
    CutOff most deep' found unlimited :=
  ⟨fun hd => h.1 (hdeep.1 hd), fun hd => h.2 fun hd' => hd (hdeep.2 hd')⟩

/-- A reading that opens no levels is the same with and without a limit. -/
theorem same (h : ¬ deep) (found : Except SyntaxError α) : CutOff most deep found found :=
  ⟨fun hd => absurd hd h, fun _ => rfl⟩

/-- Two readings one after the other are cut off if the first is, or if the second is where the
first has come to. -/
theorem bind {deepNext : α → Prop} {next next' : α → Except SyntaxError β}
    (h : CutOff most deep found unlimited)
    (hnext : ∀ a, unlimited = .ok a → CutOff most (deepNext a) (next a) (next' a)) :
    CutOff most (deep ∨ ∃ a, unlimited = .ok a ∧ deepNext a) (found >>= next)
      (unlimited >>= next') := by
  constructor
  · intro hdeep
    by_cases hd : deep
    · rw [h.1 hd]; rfl
    · obtain ⟨a, ha, hdeep⟩ := hdeep.resolve_left hd
      rw [h.2 hd, ha]
      exact (hnext a ha).1 hdeep
  · intro hdeep
    obtain ⟨hd, ha⟩ := not_or.1 hdeep
    rw [h.2 hd]
    exact bind_congr_ok fun a hread => (hnext a hread).2 fun hd => ha ⟨a, hread, hd⟩

/-- What comes last opens no more levels. -/
theorem bind_last (h : CutOff most deep found unlimited) (next : α → Except SyntaxError β) :
    CutOff most deep (found >>= next) (unlimited >>= next) := by
  constructor
  · intro hd
    rw [h.1 hd]; rfl
  · intro hd
    rw [h.2 hd]

/-- What comes first opens no levels. -/
theorem bind_same {deepNext : α → Prop} {next next' : α → Except SyntaxError β}
    (hnext : ∀ a, found = .ok a → CutOff most (deepNext a) (next a) (next' a)) :
    CutOff most (∃ a, found = .ok a ∧ deepNext a) (found >>= next) (found >>= next') :=
  ((same not_false found).bind hnext).congr (iff_of_eq (false_or _)).symm

/-- A level is opened unless it is one too many. -/
theorem opened {depth : Nat} (h : depth + 1 ≤ most → CutOff most deep found unlimited)
    (hdeep : most + 1 ≤ depth + 1 → deep) :
    CutOff most deep (do allow (some most) (depth + 1); found)
      (do allow none (depth + 1); unlimited) := by
  by_cases hle : depth + 1 ≤ most
  · have hallow : allow (some most) (depth + 1) = .ok () := if_pos hle
    rw [hallow]
    exact h hle
  · have hallow : allow (some most) (depth + 1) = .error (.tooDeep most) := if_neg hle
    rw [hallow]
    exact ⟨fun _ => rfl, fun hd => absurd (hdeep (Nat.lt_of_not_le hle)) hd⟩

end CutOff

/-! ### The readers -/

/-- Whether the limit does nothing but cut off a reader, on `tokens`, where too many levels would
be open. -/
def Limited (most : Nat) (phrase : Phrase) (tokens : List Token) : Prop :=
  ∀ ⦃depth : Nat⦄, depth ≤ most →
    CutOff most (Enters (most + 1) depth phrase tokens) (readPhrase (some most) depth phrase tokens)
      (readPhrase none depth phrase tokens)

variable {most depth : Nat}

/-- The tail of a chain is cut off where its operands are; the induction is on the tokens, which
each round makes fewer. -/
theorem cutOff_readTail {rank : Rank} {n : Nat}
    (hoperand : ∀ tokens : List Token, tokens.length < n → Limited most rank.operand tokens)
    (hdepth : depth ≤ most) (first : Expr) {tokens : List Token} (hn : tokens.length ≤ n) :
    CutOff most (EntersTail (most + 1) depth rank tokens)
      (readTail (some most) depth rank first tokens) (readTail none depth rank first tokens) := by
  match tokens with
  | [] =>
    rw [readTail_nil, readTail_nil]
    exact .same not_entersTail_nil _
  | sign :: tokens =>
    cases hsign : rank.operation? sign with
    | none =>
      rw [readTail_cons_of_none _ _ hsign, readTail_cons_of_none _ _ hsign]
      refine .same (fun h => ?_) _
      obtain ⟨⟨operation, hsign'⟩, -⟩ := entersTail_cons_iff.1 h
      exact Option.some_ne_none operation (hsign'.symm.trans hsign)
    | some operation =>
      rw [readTail_cons_of_some _ _ hsign, readTail_cons_of_some _ _ hsign]
      -- the tail opens a level too many exactly if the chain behind the sign does
      have hchain : EntersTail (most + 1) depth rank (sign :: tokens) ↔
          Enters (most + 1) depth (.chain rank) tokens :=
        entersTail_cons_iff.trans (and_iff_right ⟨operation, hsign⟩)
      refine CutOff.congr ((hoperand tokens hn hdepth).bind fun (next, rest) hread => ?_)
        (hchain.trans enters_chain_iff)
      have hlt : rest.length < tokens.length := length_lt_of_readPhrase hread
      rw [List.length_cons] at hn
      have hn' : rest.length ≤ n := by omega
      exact cutOff_readTail hoperand hdepth _ hn'
termination_by tokens.length
decreasing_by exact Nat.lt_succ_of_lt hlt

/-- **A chain is cut off where its operands are.** -/
theorem Limited.chain {rank : Rank} {tokens : List Token} (h : Limited most rank.operand tokens)
    (hrest : ∀ rest : List Token, rest.length < tokens.length → Limited most rank.operand rest) :
    Limited most (.chain rank) tokens := by
  intro depth hdepth
  rw [readPhrase_chain, readPhrase_chain]
  refine CutOff.congr ((h hdepth).bind fun (first, rest) hfirst => ?_) enters_chain_iff
  exact cutOff_readTail hrest hdepth first (length_lt_of_readPhrase hfirst).le

/-- **A power is cut off where it would open a level too many**, or where its arguments would. -/
theorem Limited.power {tokens : List Token} (h : Limited most .unary tokens)
    (hrest : ∀ rest : List Token, rest.length < tokens.length → Limited most .sum rest) :
    Limited most .power tokens := by
  intro depth hdepth
  by_cases hpow : [.name "pow", .openParen] <+: tokens
  · obtain ⟨tokens, rfl⟩ := hpow
    have hshort : tokens.length < ([Token.name "pow", .openParen] ++ tokens).length := by
      rw [List.length_append]
      exact Nat.lt_add_of_pos_left Nat.two_pos
    rw [List.cons_append, List.singleton_append, readPhrase_pow, readPhrase_pow]
    refine CutOff.congr (.opened (fun hopen => ?_) fun hle => .inl (.here hle)) enters_pow_iff
    refine (hrest tokens hshort hopen).bind fun (base, rest) hbase => ?_
    refine .bind_same fun rest' hcomma => ?_
    have hrest' : rest = .comma :: rest' := eq_cons_of_take hcomma
    have hlt := length_lt_of_readPhrase hbase
    rw [hrest', List.length_cons] at hlt
    exact (hrest rest' (by omega) hopen).bind_last _
  · rw [readPhrase_power_of_not_pow _ _ hpow, readPhrase_power_of_not_pow _ _ hpow]
    exact (h hdepth).congr (enters_power_iff hpow)

/-- **A unary is cut off at a minus sign too many**, or where what it negates would be. -/
theorem Limited.unary {tokens : List Token} (h : Limited most .primary tokens)
    (hrest : ∀ rest : List Token, rest.length < tokens.length → Limited most .unary rest) :
    Limited most .unary tokens := by
  intro depth hdepth
  by_cases hminus : ∃ tokens', tokens = .minus :: tokens'
  · obtain ⟨tokens, rfl⟩ := hminus
    rw [readPhrase_minus, readPhrase_minus]
    refine CutOff.congr (.opened (fun hopen => ?_) .here) enters_minus_iff
    exact (hrest tokens (by simp) hopen).bind_last _
  · have hne : ∀ rest, tokens ≠ .minus :: rest := fun rest h => hminus ⟨rest, h⟩
    rw [readPhrase_unary_of_not_minus _ _ hne, readPhrase_unary_of_not_minus _ _ hne]
    exact (h hdepth).congr (enters_unary_iff hne)

/-- Looking for the closing parenthesis opens no level. -/
theorem Limited.closed {tokens : List Token} (h : Limited most .sum tokens)
    (hdepth : depth ≤ most) :
    CutOff most (Enters (most + 1) depth .sum tokens) (readClosed (some most) depth tokens)
      (readClosed none depth tokens) :=
  (h hdepth).bind_last _

/-- **A primary is cut off at a parenthesis too many**, or where the sum behind it would be. -/
theorem Limited.primary {tokens : List Token}
    (hrest : ∀ rest : List Token, rest.length < tokens.length → Limited most .sum rest) :
    Limited most .primary tokens := by
  intro depth hdepth
  -- where no parenthesis comes no level is opened, and the limit makes no difference
  have hleaf {found : Except SyntaxError (Expr × List Token)}
      (hcall : ∀ function rest, tokens ≠ .name function :: .openParen :: rest)
      (hgroup : ∀ rest, tokens ≠ .openParen :: rest) :
      CutOff most (Enters (most + 1) depth .primary tokens) found found :=
    .same (fun h => Nat.not_succ_le_self depth
      (Nat.le_trans (Nat.succ_le_succ hdepth) (h.le_of_primary hcall hgroup))) found
  match tokens with
  | [] =>
    rw [readPhrase_primary_nil, readPhrase_primary_nil]
    exact hleaf nofun nofun
  | .number text :: tokens =>
    rw [readPhrase_number, readPhrase_number]
    exact hleaf nofun nofun
  | .openParen :: tokens =>
    rw [readPhrase_group, readPhrase_group]
    refine CutOff.congr (.opened (fun hopen => ?_) .here) enters_group_iff
    exact (hrest tokens (by simp)).closed hopen
  | .name text :: tokens =>
    by_cases hcall : ∃ tokens', tokens = .openParen :: tokens'
    · obtain ⟨tokens, rfl⟩ := hcall
      have hshort : tokens.length < (Token.name text :: .openParen :: tokens).length :=
        Nat.lt_add_of_pos_right Nat.two_pos
      rw [readPhrase_call, readPhrase_call]
      refine CutOff.congr (.opened (fun hopen => ?_) .here) enters_call_iff
      exact ((hrest tokens hshort).closed hopen).bind_last _
    · have hne : ∀ rest, tokens ≠ .openParen :: rest := fun rest h => hcall ⟨rest, h⟩
      rw [readPhrase_name _ _ hne, readPhrase_name _ _ hne]
      exact hleaf (fun _ rest h => hne rest (List.cons.inj h).2) nofun
  | .minus :: _ | .closeParen :: _ | .comma :: _ | .plus :: _ | .star :: _ | .slash :: _ =>
    rw [readPhrase_primary_of_sign _ _ (by simp) (by simp) (by simp),
      readPhrase_primary_of_sign _ _ (by simp) (by simp) (by simp)]
    exact hleaf nofun nofun

/-- **The limit does nothing but cut off where too many levels would be open.** -/
theorem limited (most : Nat) (phrase : Phrase) (tokens : List Token) :
    Limited most phrase tokens :=
  readers_induction (fun _ => .primary) (fun _ => .unary) (fun _ => .power) (fun _ _ => .chain)
    phrase tokens

/-- **All readers of tokens are cut off where the reader without a limit would have one level too
many open.** -/
theorem cutOff_ofTokens (most : Nat) (tokens : List Token) :
    CutOff most (Enters (most + 1) 0 .sum tokens) (ofTokens (some most) tokens)
      (ofTokens none tokens) := by
  rw [ofTokens_eq, ofTokens_eq]
  exact (limited most .sum tokens (Nat.zero_le most)).bind_last _

/-! ### Texts -/

open Position

variable {limit : Option Nat}

/-- **Tokens are too deep from a sign on, whatever stands behind it.** -/
theorem exists_of_ofTokens_eq_tooDeep {tokens : List Token} {most : Nat}
    (h : ofTokens limit tokens = .error (.tooDeep most)) :
    most ∈ limit ∧ ∃ before sign after, tokens = before ++ sign :: after ∧
      (sign = .minus ∨ sign = .openParen) ∧
      (∀ most', ofTokens limit before ≠ .error (.tooDeep most')) ∧
      ∀ rest, ofTokens limit (before ++ sign :: rest) = .error (.tooDeep most) := by
  rcases exists_of_run_eq_error (ofTokens_eq_error_iff.1 h) with
    ⟨hat, -⟩ | ⟨before, sign, after, position, rfl, hsteps, hstep⟩
  · cases hat
  · obtain ⟨_, hmost, hcause, hsign⟩ := (refused_of_step hstep).resolve_right (·.2 most rfl)
    cases hcause
    refine ⟨hmost, before, sign, after, rfl, hsign, fun most' hdeep => ?_, fun rest => ?_⟩
    · have hfinish : position.finish = .error (.tooDeep most') := by
        rw [ofTokens_eq_error_iff, run, hsteps] at hdeep
        exact hdeep
      cases at_of_finish hfinish
    · rw [ofTokens_eq_error_iff, run_append, hsteps, ok_bind, run_cons, hstep]
      rfl

/-- Whether reading a text without a limit comes to have one level more open than are allowed. -/
def TooDeep (cs : List Char) : Prop :=
  Enters (maxDepth + 1) 0 .sum (Token.scan cs)

/-- **Tokens are too deep exactly if reading them without a limit opens one level too many.** -/
theorem ofTokens_eq_tooDeep_iff {tokens : List Token} {most most' : Nat} :
    ofTokens (some most) tokens = .error (.tooDeep most') ↔
      most' = most ∧ Enters (most + 1) 0 .sum tokens := by
  obtain ⟨hdeep, hsame⟩ := cutOff_ofTokens most tokens
  constructor
  · intro h
    obtain ⟨hmost, -⟩ := exists_of_ofTokens_eq_tooDeep h
    refine ⟨(Option.mem_some_iff.1 hmost).symm, not_not.1 fun hd => ?_⟩
    -- without a limit nothing is too deep
    obtain ⟨hnone, -⟩ := exists_of_ofTokens_eq_tooDeep ((hsame hd).symm.trans h)
    cases hnone
  · rintro ⟨rfl, hd⟩
    exact hdeep hd

/-- A text is too deep from one of its characters on, whatever follows. -/
theorem exists_of_tooDeep {cs : List Char} (h : TooDeep cs) :
    ∃ us c vs, cs = us ++ c :: vs ∧ ¬ TooDeep us ∧ ∀ rest, TooDeep (us ++ c :: rest) := by
  have hdeep : ofTokens (some maxDepth) (Token.scan cs) = .error (.tooDeep maxDepth) :=
    ofTokens_eq_tooDeep_iff.2 ⟨rfl, h⟩
  obtain ⟨-, before, sign, after, hscan, hsign, hbefore, hrest⟩ :=
    exists_of_ofTokens_eq_tooDeep hdeep
  have hcut : (∀ text, sign ≠ .number text) ∧ ∀ text, sign ≠ .name text := by
    rcases hsign with rfl | rfl <;> exact ⟨nofun, nofun⟩
  obtain ⟨us, c, vs, rfl, hc, rfl, -⟩ := Token.exists_eq_append_of_scan hcut.1 hcut.2 hscan
  refine ⟨us, c, vs, rfl, fun hus => ?_, fun rest => ?_⟩
  · exact hbefore maxDepth (ofTokens_eq_tooDeep_iff.2 ⟨rfl, hus⟩)
  · have hread := hrest (Token.scan rest)
    rw [← Token.scan_append_sign hc, ofTokens_eq_tooDeep_iff] at hread
    exact hread.2

/-- A text is too deep exactly if its tokens are. -/
theorem read_eq_tooDeep_iff {text : String} {most : Nat} :
    read text = .error (.tooDeep most) ↔ most = maxDepth ∧ TooDeep text.toList :=
  ofTokens_eq_tooDeep_iff

/-- **A text is read as it is without a limit, unless that opens one level too many.**  Then there
is a first character at which it does, and the text is too deep whatever comes behind that
character. -/
theorem read_unlimited_or_tooDeep (text : String) :
    (¬ TooDeep text.toList → read text = ofTokens none (Token.scan text.toList)) ∧
      (TooDeep text.toList → ∃ us c vs, text.toList = us ++ c :: vs ∧ ¬ TooDeep us ∧
        ∀ rest, read (String.ofList (us ++ c :: rest)) = .error (.tooDeep maxDepth)) ∧
      ∀ most, read text = .error (.tooDeep most) ↔ most = maxDepth ∧ TooDeep text.toList := by
  refine ⟨(cutOff_ofTokens maxDepth _).2, fun h => ?_, fun most => read_eq_tooDeep_iff⟩
  obtain ⟨us, c, vs, htext, hus, hrest⟩ := exists_of_tooDeep h
  refine ⟨us, c, vs, htext, hus, fun rest => read_eq_tooDeep_iff.2 ⟨rfl, ?_⟩⟩
  rw [String.toList_ofList]
  exact hrest rest

end Expr
end QubitSphere
