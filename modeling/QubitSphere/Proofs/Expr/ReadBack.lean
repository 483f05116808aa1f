/-
# Derivations are read back

A phrase nested to the depth `d` is read inside `depth` open levels exactly if `depth + d` levels
are allowed, and is too deep otherwise, whatever comes behind it that it does not go on with
(`ReadBack`).  There is one lemma for each production, and `Derives.readBack` puts them together.

The beginning of a chain is read without knowing whether the chain goes on, so of a chain it is only
said that its beginning has been read and the tail is next (`finish`).
-/

import QubitSphere.Proofs.Expr.Readers
import QubitSphere.Proofs.Expr.Scan

namespace QubitSphere

/-! ### Literals -/

/-- The point alone is no literal. -/
theorem Literal.ofText?_point : ofText? "." = none := by decide

/-- **A lexical number is a literal unless it is the point alone.** -/
theorem Literal.ofText?_of_lexical {text : String} (h : (Token.number text).Lexical)
    (hne : text ≠ ".") : ofText? text = some (written text) := by
  obtain ⟨hnil, hchars, hcount⟩ := h
  rw [ofText?_eq, if_neg]
  intro hempty
  have hpoints : ∀ c ∈ text.toList, c = '.' := fun c hc => by
    have hdigit := List.filter_eq_nil_iff.1 (List.isEmpty_iff.1 hempty) c hc
    simpa [Token.startsNumber, hdigit] using hchars c hc
  rw [List.count_eq_length.2 fun c hc => (hpoints c hc).symm] at hcount
  obtain ⟨c, htext⟩ := List.length_eq_one_iff.1
    (Nat.le_antisymm hcount (List.length_pos_iff.2 hnil))
  rw [hpoints c (htext ▸ List.mem_singleton_self c)] at htext
  exact hne (String.toList_inj.1 htext)

/-- Every literal is the one written as its text. -/
theorem Literal.eq_written_of_ofText? {text : String} {literal : Literal}
    (h : ofText? text = some literal) : text ≠ "." ∧ literal = written text := by
  refine ⟨fun htext => ?_, ?_⟩
  · rw [htext, ofText?_point] at h
    cases h
  · rw [ofText?_eq] at h
    split at h
    · cases h
    · exact (Option.some.inj h).symm

namespace Expr

variable {limit : Option Nat} {depth : Nat}

/-! ### What a phrase ends before -/

/-- The tokens that a phrase goes on with if they come right behind it. -/
def Phrase.goesOn : Phrase → List Token
  | .chain .sum => [.plus, .minus, .star, .slash, .openParen]
  | .chain .product => [.star, .slash, .openParen]
  | .power | .unary | .primary => [.openParen]

/-- Whether a phrase ends before the tokens `rest`. -/
def Phrase.Ends (phrase : Phrase) (rest : List Token) : Prop :=
  ∀ token ∈ rest.head?, token ∉ phrase.goesOn

/-- The phrase that a chain begins with, and every other phrase itself. -/
def Phrase.stem : Phrase → Phrase
  | .chain rank => rank.operand
  | phrase => phrase

/-- What is left to do when the beginning `t` of a phrase has been read. -/
def finish (limit : Option Nat) (depth : Nat) (phrase : Phrase) (t : Expr) (rest : List Token) :
    Except SyntaxError (Expr × List Token) :=
  match phrase with
  | .chain rank => readTail limit depth rank t rest
  | _ => .ok (t, rest)

/-- Where a chain ends, so does what it begins with. -/
theorem Phrase.Ends.stem {phrase : Phrase} {rest : List Token} (h : phrase.Ends rest) :
    phrase.stem.Ends rest := by
  have hsub : phrase.stem.goesOn ⊆ phrase.goesOn := by
    match phrase with
    | .chain .sum | .chain .product => exact List.subset_append_right [_, _] _
    | .power | .unary | .primary => exact List.Subset.refl _
  exact fun token htoken hmem => h token htoken (hsub hmem)

/-- Where a phrase ends, its beginning is all of it. -/
theorem finish_of_ends {phrase : Phrase} {rest : List Token} (h : phrase.Ends rest) (t : Expr) :
    finish limit depth phrase t rest = .ok (t, rest) := by
  match phrase, rest with
  | .chain rank, [] => exact readTail_nil ..
  | .chain rank, token :: rest =>
    have hnone : rank.operation? token = none := by
      have hmem := h token rfl
      cases rank <;> cases token <;> first | rfl | exact absurd (by decide) hmem
    exact readTail_cons_of_none limit depth hnone t rest
  | .power, _ | .unary, _ | .primary, _ => rfl

/-- An operand ends before the signs of its chain. -/
theorem Phrase.ends_sign {rank : Rank} {sign : Token} {operation : Operation}
    (h : rank.operation? sign = some operation) (rest : List Token) :
    rank.operand.Ends (sign :: rest) := by
  intro token htoken
  obtain rfl : sign = token := by simpa using htoken
  cases rank <;> cases sign <;> first | cases h; done | decide

/-- Reading goes on with what was read. -/
theorem ok_bind {α β : Type} (a : α) (next : α → Except SyntaxError β) :
    (Except.ok a >>= next) = next a := rfl

/-- Nothing goes on with a comma or a closing parenthesis. -/
theorem Phrase.ends_closer {closer : Token} (h : closer = .comma ∨ closer = .closeParen)
    (phrase : Phrase) (rest : List Token) : phrase.Ends (closer :: rest) := by
  intro token htoken
  obtain rfl : closer = token := by simpa using htoken
  rcases h with rfl | rfl <;> match phrase with
    | .chain .sum | .chain .product | .power | .unary | .primary => decide

/-- No phrase ends before an opening parenthesis, which would make a call of a name at its end. -/
theorem Phrase.Ends.ne_openParen {phrase : Phrase} {rest : List Token} (h : phrase.Ends rest)
    (rest' : List Token) : rest ≠ .openParen :: rest' := by
  rintro rfl
  refine h .openParen rfl ?_
  match phrase with
  | .chain .sum | .chain .product | .power | .unary | .primary => decide

/-- What comes behind a phrase does not turn its beginning into that of a power. -/
theorem not_pow_prefix_append {phrase : Phrase} {ts rest : List Token} (hne : ts ≠ [])
    (hrest : phrase.Ends rest) (h : ¬ [.name "pow", .openParen] <+: ts) :
    ¬ [.name "pow", .openParen] <+: ts ++ rest := by
  rintro ⟨us, hus⟩
  match ts with
  | [_] => exact hrest.ne_openParen us (List.cons.inj hus).2.symm
  | first :: second :: ts =>
    obtain ⟨hfirst, hus⟩ := List.cons.inj hus
    obtain ⟨hsecond, -⟩ := List.cons.inj hus
    exact h ⟨ts, by rw [← hfirst, ← hsecond]; rfl⟩

/-- No primary begins with a minus sign. -/
theorem Derives.ne_minus_append {ts : List Token} {t : Expr} {d : Nat}
    (h : Derives .primary ts t d) (rest rest' : List Token) : ts ++ rest ≠ .minus :: rest' := by
  cases h <;> exact fun h => Token.noConfusion (List.cons.inj h).1

/-! ### Reading back -/

/-- Whether the tokens `ts` are read as `t` wherever the phrase may end, as long as `d` more levels
are allowed. -/
def ReadBack (limit : Option Nat) (phrase : Phrase) (ts : List Token) (t : Expr) (d : Nat) : Prop :=
  ∀ ⦃depth : Nat⦄ ⦃rest : List Token⦄, allow limit depth = .ok () → phrase.stem.Ends rest →
    readPhrase limit depth phrase (ts ++ rest) = (do
      allow limit (depth + d)
      finish limit depth phrase t rest)

/-- A level is opened first, and with it all that are open inside. -/
theorem allow_bind {α : Type} {m n : Nat} (hmn : m ≤ n) {found next : Except SyntaxError α}
    (h : allow limit m = .ok () → found = (do allow limit n; next)) :
    (do allow limit m; found) = (do allow limit n; next) := by
  cases hm : allow limit m with
  | error cause => rw [allow_error_of_le hm hmn]; rfl
  | ok _ => exact h hm

/-- A sum before a comma or a closing parenthesis is read back whole. -/
theorem ReadBack.before_closer {ts : List Token} {t : Expr} {d : Nat}
    (h : ReadBack limit .sum ts t d) (hdepth : allow limit depth = .ok ()) {closer : Token}
    (hcloser : closer = .comma ∨ closer = .closeParen) (rest : List Token) :
    readPhrase limit depth .sum (ts ++ closer :: rest) = (do
      allow limit (depth + d)
      .ok (t, closer :: rest)) := by
  have hends := Phrase.ends_closer hcloser .sum rest
  rw [h hdepth hends.stem, finish_of_ends hends]

/-- A sum is read back together with the parenthesis that closes it. -/
theorem ReadBack.closed {ts : List Token} {t : Expr} {d : Nat} (h : ReadBack limit .sum ts t d)
    (hdepth : allow limit depth = .ok ()) (rest : List Token) :
    readClosed limit depth (ts ++ .closeParen :: rest) = (do
      allow limit (depth + d)
      .ok (t, rest)) := by
  rw [readClosed, h.before_closer hdepth (.inr rfl), bind_assoc]
  simp only [ok_bind, take_cons]
  rfl

/-- A chain of one operand is read back. -/
theorem ReadBack.operand {rank : Rank} {ts : List Token} {t : Expr} {d : Nat}
    (h : ReadBack limit rank.operand ts t d) : ReadBack limit (.chain rank) ts t d := by
  intro depth rest hdepth hrest
  have hends : rank.operand.Ends rest := hrest
  rw [readPhrase_chain, h hdepth hends.stem, finish_of_ends hends, bind_assoc]
  rfl

/-- **A chain is read back if what it goes on from and its last operand are**, and nests as deep as
the deeper of the two. -/
theorem ReadBack.chain {rank : Rank} {ts us : List Token} {sign : Token} {operation : Operation}
    {left right : Expr} {d e : Nat} (h : ReadBack limit (.chain rank) ts left d)
    (hsign : rank.operation? sign = some operation)
    (h' : ReadBack limit rank.operand us right e) :
    ReadBack limit (.chain rank) (ts ++ sign :: us) (.binary operation left right) (max d e) := by
  intro depth rest hdepth hrest
  have hends : rank.operand.Ends rest := hrest
  have hleft := h hdepth (Phrase.ends_sign hsign (us ++ rest))
  rw [List.append_assoc, List.cons_append, hleft, finish, readTail_cons_of_some _ _ hsign,
    h' hdepth hends.stem, finish_of_ends hends, bind_assoc, allow_max, Nat.add_max_add_left]
  rfl

/-- **A power is read back if its arguments are**, one level deeper than both. -/
theorem ReadBack.pow {ts us : List Token} {base exponent : Expr} {d e : Nat}
    (h : ReadBack limit .sum ts base d) (h' : ReadBack limit .sum us exponent e) :
    ReadBack limit .power (.name "pow" :: .openParen :: (ts ++ .comma :: (us ++ [.closeParen])))
      (.pow base exponent) (max d e + 1) := by
  intro depth rest _ _
  have htokens : (.name "pow" :: .openParen :: (ts ++ .comma :: (us ++ [.closeParen]))) ++ rest =
      .name "pow" :: .openParen :: (ts ++ .comma :: (us ++ .closeParen :: rest)) := by simp
  rw [htokens, readPhrase_pow]
  refine allow_bind (by omega) fun hopen => ?_
  simp only [h.before_closer hopen (.inl rfl), h'.before_closer hopen (.inr rfl), bind_assoc,
    ok_bind, take_cons]
  rw [allow_max, Nat.add_max_add_left, Nat.add_right_comm, Nat.add_assoc]
  rfl

/-- A power that is no `pow (` is read back as its unary. -/
theorem ReadBack.unary {ts : List Token} {t : Expr} {d : Nat} (h : ReadBack limit .unary ts t d)
    (hne : ts ≠ []) (hpow : ¬ [.name "pow", .openParen] <+: ts) :
    ReadBack limit .power ts t d := by
  intro depth rest hdepth hrest
  rw [readPhrase_power_of_not_pow _ _ (not_pow_prefix_append hne hrest hpow), h hdepth hrest]
  rfl

/-- **A negation is read back if its operand is**, one level deeper. -/
theorem ReadBack.negate {ts : List Token} {t : Expr} {d : Nat} (h : ReadBack limit .unary ts t d) :
    ReadBack limit .unary (.minus :: ts) (.negate t) (d + 1) := by
  intro depth rest _ hrest
  rw [List.cons_append, readPhrase_minus]
  refine allow_bind (by omega) fun hopen => ?_
  rw [h hopen hrest, bind_assoc, Nat.add_right_comm, Nat.add_assoc]
  rfl

/-- A unary without a minus sign is read back as its primary. -/
theorem ReadBack.primary {ts : List Token} {t : Expr} {d : Nat}
    (h : ReadBack limit .primary ts t d) (hminus : ∀ rest rest', ts ++ rest ≠ .minus :: rest') :
    ReadBack limit .unary ts t d := by
  intro depth rest hdepth hrest
  rw [readPhrase_unary_of_not_minus _ _ (hminus rest), h hdepth hrest]
  rfl

/-- **A call is read back if its argument is**, one level deeper. -/
theorem ReadBack.call {ts : List Token} {t : Expr} {d : Nat} (h : ReadBack limit .sum ts t d)
    (function : String) :
    ReadBack limit .primary (.name function :: .openParen :: (ts ++ [.closeParen]))
      (.call function t) (d + 1) := by
  intro depth rest _ _
  have htokens : (.name function :: .openParen :: (ts ++ [.closeParen])) ++ rest =
      .name function :: .openParen :: (ts ++ .closeParen :: rest) := by simp
  rw [htokens, readPhrase_call]
  refine allow_bind (by omega) fun hopen => ?_
  rw [h.closed hopen, bind_assoc, Nat.add_right_comm, Nat.add_assoc]
  rfl

/-- **A group is read back as the sum in it**, one level deeper; the tree does not keep its
parentheses. -/
theorem ReadBack.group {ts : List Token} {t : Expr} {d : Nat} (h : ReadBack limit .sum ts t d) :
    ReadBack limit .primary (.openParen :: (ts ++ [.closeParen])) t (d + 1) := by
  intro depth rest _ _
  have htokens : (.openParen :: (ts ++ [.closeParen])) ++ rest =
      .openParen :: (ts ++ .closeParen :: rest) := by simp
  rw [htokens, readPhrase_group]
  refine allow_bind (by omega) fun hopen => ?_
  rw [h.closed hopen, Nat.add_right_comm, Nat.add_assoc]
  rfl

/-- A number is read back, and opens no level. -/
theorem readBack_number {text : String} (hlex : (Token.number text).Lexical) (hne : text ≠ ".") :
    ReadBack limit .primary [.number text] (.number (Literal.written text)) 0 := by
  intro depth rest hdepth _
  rw [List.singleton_append, readPhrase_number, Literal.ofText?_of_lexical hlex hne, Nat.add_zero,
    hdepth]
  rfl

/-- A name is read back, and opens no level. -/
theorem readBack_name (text : String) : ReadBack limit .primary [.name text] (.name text) 0 := by
  intro depth rest hdepth hrest
  rw [List.singleton_append, readPhrase_name _ _ hrest.ne_openParen, Nat.add_zero, hdepth]
  rfl

/-- **Whatever is derived is read back.** -/
theorem Derives.readBack {phrase : Phrase} {ts : List Token} {t : Expr} {d : Nat}
    (h : Derives phrase ts t d) (hlex : ∀ token ∈ ts, token.Lexical) :
    ReadBack limit phrase ts t d := by
  induction h with
  | operand _ ih => exact (ih hlex).operand
  | chain _ hsign _ ih ih' =>
    exact (ih fun token h => hlex token (by simp [h])).chain hsign
      (ih' fun token h => hlex token (by simp [h]))
  | pow _ _ ih ih' =>
    exact (ih fun token h => hlex token (by simp [h])).pow
      (ih' fun token h => hlex token (by simp [h]))
  | unary h hpow ih => exact (ih hlex).unary h.ne_nil hpow
  | negate _ ih => exact (ih fun token h => hlex token (by simp [h])).negate
  | primary h ih => exact (ih hlex).primary h.ne_minus_append
  | number hne => exact readBack_number (hlex _ (List.mem_singleton_self _)) hne
  | name => exact readBack_name _
  | call _ ih => exact (ih fun token h => hlex token (by simp [h])).call _
  | group _ ih => exact (ih fun token h => hlex token (by simp [h])).group

end Expr
end QubitSphere
