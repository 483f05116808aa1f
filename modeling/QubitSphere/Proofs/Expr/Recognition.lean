/-
# Reading is the grammar

Whatever is read is derived (`sound`), and derivations are read back.  So a text is read as an
expression exactly if its tokens are a sum that writes the expression, nested no deeper than the
limit (`read_eq_ok_iff`), and no tokens write two expressions (`Derives.unique`).

A reader of one phrase is sound on a list of tokens if the readers that it begins with are sound
there and all readers are sound on every shorter list: that is one lemma for each phrase, and
`readers_induction` puts them together.
-/

import QubitSphere.Proofs.Expr.ReadBack
import Mathlib.Data.Set.Subsingleton

namespace QubitSphere
namespace Expr

variable {limit : Option Nat} {depth : Nat}

/-- Two readings succeed one after the other if the first does and the second does from there. -/
theorem bind_eq_ok_iff {ε α β : Type} {found : Except ε α} {next : α → Except ε β} {b : β} :
    (found >>= next) = .ok b ↔ ∃ a, found = .ok a ∧ next a = .ok b := by
  cases found with
  | error cause => exact ⟨nofun, nofun⟩
  | ok a => exact ⟨fun h => ⟨a, rfl, h⟩, fun ⟨_, ha, h⟩ => Except.ok.inj ha ▸ h⟩

/-- Whether every phrase that is read off `tokens` is derived, within the limit. -/
def Sound (limit : Option Nat) (phrase : Phrase) (tokens : List Token) : Prop :=
  ∀ ⦃depth : Nat⦄ ⦃t : Expr⦄ ⦃rest : List Token⦄, allow limit depth = .ok () →
    readPhrase limit depth phrase tokens = .ok (t, rest) →
    ∃ ts d, tokens = ts ++ rest ∧ Derives phrase ts t d ∧ allow limit (depth + d) = .ok ()

/-- If two depths are allowed, so is the greater. -/
theorem allow_max_eq_ok {m n : Nat} (hm : allow limit m = .ok ()) (hn : allow limit n = .ok ()) :
    allow limit (max m n) = .ok () :=
  allow_eq_ok_iff.2 fun most hmost =>
    Nat.max_le.2 ⟨allow_eq_ok_iff.1 hm most hmost, allow_eq_ok_iff.1 hn most hmost⟩

/-- The tail of a chain adds operands to what is derived of it so far, each within the limit; the
induction is on the tokens. -/
theorem derives_of_readTail {rank : Rank} {n : Nat}
    (hoperand : ∀ tokens : List Token, tokens.length < n → Sound limit rank.operand tokens)
    (hdepth : allow limit depth = .ok ()) {ts : List Token} {first : Expr} {d : Nat}
    (hfirst : Derives (.chain rank) ts first d) (hd : allow limit (depth + d) = .ok ())
    {tokens : List Token} (hn : tokens.length ≤ n) {t : Expr} {rest : List Token}
    (h : readTail limit depth rank first tokens = .ok (t, rest)) :
    ∃ us e, tokens = us ++ rest ∧ Derives (.chain rank) (ts ++ us) t e ∧
      allow limit (depth + e) = .ok () := by
  match tokens with
  | [] =>
    rw [readTail_nil] at h
    cases h
    exact ⟨[], d, rfl, by rwa [List.append_nil], hd⟩
  | sign :: tokens =>
    cases hsign : rank.operation? sign with
    | none =>
      rw [readTail_cons_of_none _ _ hsign] at h
      cases h
      exact ⟨[], d, rfl, by rwa [List.append_nil], hd⟩
    | some operation =>
      rw [readTail_cons_of_some _ _ hsign] at h
      obtain ⟨⟨next, rest₁⟩, hnext, htail⟩ := bind_eq_ok_iff.1 h
      obtain ⟨us, e, rfl, hus, he⟩ := hoperand tokens hn hdepth hnext
      -- the tail goes on from the deeper of the chain so far and its new operand
      have hmax : allow limit (depth + max d e) = .ok () :=
        Nat.add_max_add_left depth d e ▸ allow_max_eq_ok hd he
      have hn' : rest₁.length ≤ n := by
        rw [List.length_cons, List.length_append] at hn
        omega
      obtain ⟨vs, f, rfl, hvs, hf⟩ :=
        derives_of_readTail hoperand hdepth (.chain hfirst hsign hus) hmax hn' htail
      refine ⟨sign :: (us ++ vs), f, by simp, ?_, hf⟩
      rwa [List.append_assoc] at hvs
termination_by tokens.length

/-- **What is read as a chain is derived as one**, if its operands are. -/
theorem Sound.chain {rank : Rank} {tokens : List Token}
    (h : Sound limit rank.operand tokens)
    (hrest : ∀ rest : List Token, rest.length < tokens.length → Sound limit rank.operand rest) :
    Sound limit (.chain rank) tokens := by
  intro depth t rest hdepth hread
  rw [readPhrase_chain] at hread
  obtain ⟨⟨first, rest₁⟩, hfirst, htail⟩ := bind_eq_ok_iff.1 hread
  obtain ⟨ts, d, rfl, hts, hd⟩ := h hdepth hfirst
  have hle : rest₁.length ≤ (ts ++ rest₁).length := by simp
  obtain ⟨us, e, rfl, hus, he⟩ := derives_of_readTail hrest hdepth (.operand hts) hd hle htail
  exact ⟨ts ++ us, e, (List.append_assoc ..).symm, hus, he⟩

/-- **What is read as a power is derived as one**, if its arguments are, or its unary. -/
theorem Sound.power {tokens : List Token} (h : Sound limit .unary tokens)
    (hrest : ∀ rest : List Token, rest.length < tokens.length → Sound limit .sum rest) :
    Sound limit .power tokens := by
  intro depth t rest hdepth hread
  by_cases hpow : [.name "pow", .openParen] <+: tokens
  · obtain ⟨tokens, rfl⟩ := hpow
    rw [List.cons_append, List.singleton_append, readPhrase_pow] at hread
    obtain ⟨⟨⟩, hopen, hread⟩ := bind_eq_ok_iff.1 hread
    obtain ⟨⟨base, rest₁⟩, hbase, hread⟩ := bind_eq_ok_iff.1 hread
    obtain ⟨rest₂, hcomma, hread⟩ := bind_eq_ok_iff.1 hread
    obtain ⟨⟨exponent, rest₃⟩, hexponent, hread⟩ := bind_eq_ok_iff.1 hread
    obtain ⟨rest₄, hclose, hread⟩ := bind_eq_ok_iff.1 hread
    cases hread
    -- each argument leaves fewer tokens than there were, as the hypothesis on the rest asks
    have hshort : tokens.length < ([Token.name "pow", .openParen] ++ tokens).length := by
      rw [List.length_append]
      exact Nat.lt_add_of_pos_left Nat.two_pos
    obtain ⟨ts, d, rfl, hts, hd⟩ := hrest tokens hshort hopen hbase
    obtain rfl := eq_cons_of_take hcomma
    have hshorter : rest₂.length < (ts ++ Token.comma :: rest₂).length := by
      rw [List.length_append, List.length_cons]
      omega
    obtain ⟨us, e, rfl, hus, he⟩ := hrest rest₂ (hshorter.trans hshort) hopen hexponent
    obtain rfl := eq_cons_of_take hclose
    refine ⟨_, _, by simp, .pow hts hus, ?_⟩
    rw [← Nat.add_assoc, Nat.add_right_comm, ← Nat.add_max_add_left]
    exact allow_max_eq_ok hd he
  · rw [readPhrase_power_of_not_pow _ _ hpow] at hread
    obtain ⟨ts, d, htokens, hts, hd⟩ := h hdepth hread
    -- what was read begins as all tokens do, so it is no call of `pow` either
    have hpow' : ¬ [.name "pow", .openParen] <+: ts := fun hprefix =>
      hpow (htokens ▸ hprefix.trans (List.prefix_append ..))
    exact ⟨ts, d, htokens, .unary hts hpow', hd⟩

/-- **What is read as a unary is derived as one**, if what it negates is, or its primary. -/
theorem Sound.unary {tokens : List Token} (h : Sound limit .primary tokens)
    (hrest : ∀ rest : List Token, rest.length < tokens.length → Sound limit .unary rest) :
    Sound limit .unary tokens := by
  intro depth t rest hdepth hread
  by_cases hminus : ∃ tokens', tokens = .minus :: tokens'
  · obtain ⟨tokens, rfl⟩ := hminus
    rw [readPhrase_minus] at hread
    obtain ⟨⟨⟩, hopen, hread⟩ := bind_eq_ok_iff.1 hread
    obtain ⟨⟨operand, rest₁⟩, hoperand, hread⟩ := bind_eq_ok_iff.1 hread
    cases hread
    obtain ⟨ts, d, rfl, hts, hd⟩ := hrest tokens (by simp) hopen hoperand
    exact ⟨_, _, rfl, .negate hts, by rwa [← Nat.add_assoc, Nat.add_right_comm]⟩
  · rw [readPhrase_unary_of_not_minus _ _ fun tokens' h => hminus ⟨tokens', h⟩] at hread
    obtain ⟨ts, d, htokens, hts, hd⟩ := h hdepth hread
    exact ⟨ts, d, htokens, .primary hts, hd⟩

/-- What is read up to a closing parenthesis is a sum and that parenthesis. -/
theorem derives_of_readClosed {tokens : List Token} (h : Sound limit .sum tokens)
    (hdepth : allow limit depth = .ok ()) {t : Expr} {rest : List Token}
    (hread : readClosed limit depth tokens = .ok (t, rest)) :
    ∃ ts d, tokens = ts ++ .closeParen :: rest ∧ Derives .sum ts t d ∧
      allow limit (depth + d) = .ok () := by
  obtain ⟨⟨inner, rest₁⟩, hinner, hread⟩ := bind_eq_ok_iff.1 hread
  obtain ⟨rest₂, hclose, hread⟩ := bind_eq_ok_iff.1 hread
  cases hread
  obtain rfl := eq_cons_of_take hclose
  exact h hdepth hinner

/-- **What is read as a primary is derived as one**, if the sum in its parentheses is. -/
theorem Sound.primary {tokens : List Token}
    (hrest : ∀ rest : List Token, rest.length < tokens.length → Sound limit .sum rest) :
    Sound limit .primary tokens := by
  intro depth t rest hdepth hread
  match tokens with
  | [] =>
    rw [readPhrase_primary_nil] at hread
    cases hread
  | .number text :: tokens =>
    rw [readPhrase_number] at hread
    cases hliteral : Literal.ofText? text with
    | none => rw [hliteral] at hread; cases hread
    | some literal =>
      obtain ⟨hne, rfl⟩ := Literal.eq_written_of_ofText? hliteral
      rw [hliteral] at hread
      cases hread
      exact ⟨_, _, rfl, .number hne, hdepth⟩
  | .openParen :: tokens =>
    rw [readPhrase_group] at hread
    obtain ⟨⟨⟩, hopen, hread⟩ := bind_eq_ok_iff.1 hread
    obtain ⟨ts, d, rfl, hts, hd⟩ := derives_of_readClosed (hrest tokens (by simp)) hopen hread
    exact ⟨_, _, by simp, .group hts, by rwa [← Nat.add_assoc, Nat.add_right_comm]⟩
  | .name text :: tokens =>
    by_cases hcall : ∃ tokens', tokens = .openParen :: tokens'
    · obtain ⟨tokens, rfl⟩ := hcall
      rw [readPhrase_call] at hread
      obtain ⟨⟨⟩, hopen, hread⟩ := bind_eq_ok_iff.1 hread
      obtain ⟨⟨argument, rest₁⟩, hargument, hread⟩ := bind_eq_ok_iff.1 hread
      cases hread
      have hshort : tokens.length < (Token.name text :: .openParen :: tokens).length :=
        Nat.lt_add_of_pos_right Nat.two_pos
      obtain ⟨ts, d, rfl, hts, hd⟩ := derives_of_readClosed (hrest tokens hshort) hopen hargument
      exact ⟨_, _, by simp, .call hts, by rwa [← Nat.add_assoc, Nat.add_right_comm]⟩
    · rw [readPhrase_name _ _ fun tokens' h => hcall ⟨tokens', h⟩] at hread
      cases hread
      exact ⟨_, _, rfl, .name, hdepth⟩
  | .minus :: _ | .closeParen :: _ | .comma :: _ | .plus :: _ | .star :: _ | .slash :: _ =>
    rw [readPhrase_primary_of_sign _ _ (by simp) (by simp) (by simp)] at hread
    cases hread

/-- **Whatever is read is derived.** -/
theorem sound (limit : Option Nat) (phrase : Phrase) (tokens : List Token) :
    Sound limit phrase tokens :=
  readers_induction (fun _ => .primary) (fun _ => .unary) (fun _ => .power) (fun _ _ => .chain)
    phrase tokens

/-! ### Whole texts -/

/-- Reading all tokens is reading a sum with nothing behind it. -/
theorem ofTokens_eq (limit : Option Nat) (tokens : List Token) :
    ofTokens limit tokens = (do
      let (expr, rest) ← readPhrase limit 0 .sum tokens
      match rest with
      | [] => return expr
      | token :: _ => throw (.trailing token)) := by
  rw [ofTokens, readPhrase]
  cases readChain limit 0 .sum tokens <;> rfl

/-- The outermost level is always allowed. -/
theorem allow_zero (limit : Option Nat) : allow limit 0 = .ok () :=
  allow_eq_ok_iff.2 fun _ _ => Nat.zero_le _

/-- **The tokens of a sum are read as the expression they write, unless they are nested deeper than
the limit.** -/
theorem Derives.ofTokens_eq {ts : List Token} {t : Expr} {d : Nat} (h : Derives .sum ts t d)
    (hlex : ∀ token ∈ ts, token.Lexical) (limit : Option Nat) :
    ofTokens limit ts = (do
      allow limit d
      return t) := by
  have hends : Phrase.sum.Ends [] := nofun
  have hread := h.readBack hlex (allow_zero limit) hends.stem
  rw [List.append_nil, Nat.zero_add, finish_of_ends hends] at hread
  rw [Expr.ofTokens_eq, hread, bind_assoc]
  rfl

/-- **Tokens are read as an expression exactly if they are a sum that writes it**, nested no deeper
than the limit allows. -/
theorem ofTokens_eq_ok_iff {limit : Option Nat} {ts : List Token}
    (hlex : ∀ token ∈ ts, token.Lexical) {t : Expr} :
    ofTokens limit ts = .ok t ↔ ∃ d, Derives .sum ts t d ∧ allow limit d = .ok () := by
  constructor
  · intro h
    rw [Expr.ofTokens_eq] at h
    obtain ⟨⟨expr, rest⟩, hread, h⟩ := bind_eq_ok_iff.1 h
    match rest with
    | [] =>
      cases h
      obtain ⟨us, d, rfl, hus, hd⟩ := sound limit .sum ts (allow_zero limit) hread
      rw [List.append_nil]
      exact ⟨d, hus, Nat.zero_add d ▸ hd⟩
    | token :: _ => cases h
  · rintro ⟨d, h, hd⟩
    rw [h.ofTokens_eq hlex, hd]
    rfl

/-- Two derivations from the same tokens write the same expression.  Reading without a limit brings
both about, and with the depth of the one as the limit it shows that the other is no deeper. -/
theorem Derives.eq_and_le {ts : List Token} {t t' : Expr} {d d' : Nat} (h : Derives .sum ts t d)
    (h' : Derives .sum ts t' d') (hlex : ∀ token ∈ ts, token.Lexical) : t' = t ∧ d' ≤ d := by
  have hread : ofTokens (some d) ts = .ok t :=
    (ofTokens_eq_ok_iff hlex).2 ⟨d, h, allow_eq_ok_iff.2 (by simp)⟩
  rw [h'.ofTokens_eq hlex] at hread
  obtain ⟨⟨⟩, hd, ht⟩ := bind_eq_ok_iff.1 hread
  exact ⟨Except.ok.inj ht, allow_eq_ok_iff.1 hd d rfl⟩

/-- **Tokens write at most one expression, and are nested to one depth.** -/
theorem Derives.unique {ts : List Token} {t t' : Expr} {d d' : Nat} (h : Derives .sum ts t d)
    (h' : Derives .sum ts t' d') (hlex : ∀ token ∈ ts, token.Lexical) : t = t' ∧ d = d' :=
  ⟨(h'.eq_and_le h hlex).1, Nat.le_antisymm (h'.eq_and_le h hlex).2 (h.eq_and_le h' hlex).2⟩

/-- **A text is read as an expression exactly if its tokens write it, nested no deeper than
allowed.** -/
theorem read_eq_ok_iff {text : String} {t : Expr} :
    read text = .ok t ↔ ∃ d ≤ maxDepth, Derives .sum (Token.scan text.toList) t d := by
  rw [read, ofTokens_eq_ok_iff fun _ => Token.lexical_of_mem_scan]
  simp [allow_eq_ok_iff, and_comm]

/-- **A text is read as an expression exactly if the grammar writes it so within the depth limit,
and the grammar gives no text two expressions.** -/
theorem read_eq_ok_iff_derives (text : String) :
    (∀ t, read text = .ok t ↔ ∃ d ≤ maxDepth, Derives .sum (Token.scan text.toList) t d) ∧
      {t | ∃ d, Derives .sum (Token.scan text.toList) t d}.Subsingleton := by
  refine ⟨fun t => read_eq_ok_iff, ?_⟩
  rintro t ⟨d, h⟩ t' ⟨d', h'⟩
  exact (h.unique h' fun _ => Token.lexical_of_mem_scan).1

end Expr
end QubitSphere
