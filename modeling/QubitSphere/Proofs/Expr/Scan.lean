/-
# Cutting a text into tokens

Two facts about `Token.scan` carry all that is proved about printed texts.  A text is cut before
and after every character that no name and no number goes on with (`Token.scan_append_cons`), and a
text that has the form of one number or name is cut into that token alone (`Token.scan_number`,
`Token.scan_name`).  `Token.Lexical` says what the form is, and `Token.lexical_of_mem_scan` that
every token of a text has it.
-/

import QubitSphere.Expr.Token
import Mathlib.Data.List.TakeWhile

namespace QubitSphere
namespace Token

/-- A number begins with an ASCII digit or a point, told by the code of the character. -/
theorem startsNumber_iff {c : Char} :
    startsNumber c = true ↔ (48 ≤ c.toNat ∧ c.toNat ≤ 57) ∨ c = '.' := by
  simp only [startsNumber, Char.isDigit, Bool.or_eq_true, Bool.and_eq_true, decide_eq_true_eq,
    beq_iff_eq]
  exact Iff.rfl

/-- Below its first range a table contains nothing, since its ranges ascend. -/
theorem inRanges_of_lt {lo hi n : Nat} {rest : List (Nat × Nat)} (h : n < lo) :
    Text.inRanges ((lo, hi) :: rest) n = false := by
  rw [Text.inRanges, if_pos h]

/-- A code in the first range of a table is in the table. -/
theorem inRanges_of_mem {lo hi n : Nat} {rest : List (Nat × Nat)} (hlo : lo ≤ n) (hhi : n ≤ hi) :
    Text.inRanges ((lo, hi) :: rest) n = true := by
  rw [Text.inRanges, if_neg (Nat.not_lt.2 hlo), decide_eq_true hhi, Bool.true_or]

/-- A character that begins a number begins no name: the digits and the point come before all
letters. -/
theorem startsName_of_startsNumber {c : Char} (h : startsNumber c = true) :
    startsName c = false := by
  have hlt : c.toNat < 0x41 := by
    rcases startsNumber_iff.1 h with ⟨-, h⟩ | rfl
    · omega
    · decide
  have hne : c ≠ '_' := fun hc => by rw [hc] at hlt; exact absurd hlt (by decide)
  have halpha : Text.isAlphabetic c = false := inRanges_of_lt hlt
  rw [startsName, halpha, Bool.false_or, beq_eq_false_iff_ne]
  exact hne

/-- A name goes on with whatever begins a number. -/
theorem continuesName_of_startsNumber {c : Char} (h : startsNumber c = true) :
    continuesName c = true := by
  rcases startsNumber_iff.1 h with ⟨hlo, hhi⟩ | rfl
  · have hnumeric : Text.isNumeric c = true := inRanges_of_mem hlo hhi
    rw [continuesName, hnumeric, Bool.or_true, Bool.true_or, Bool.true_or]
  · rw [continuesName, beq_self_eq_true, Bool.or_true]

/-- No number begins with a character that ends names. -/
theorem startsNumber_of_not_continuesName {c : Char} (h : continuesName c = false) :
    startsNumber c = false :=
  Bool.eq_false_iff.2 fun hn => by
    rw [continuesName_of_startsNumber hn] at h; exact Bool.false_ne_true h.symm

/-- No name begins with a character that ends names. -/
theorem startsName_of_not_continuesName {c : Char} (h : continuesName c = false) :
    startsName c = false :=
  Bool.eq_false_iff.2 fun hn => by
    rw [continuesName_of_startsName hn] at h; exact Bool.false_ne_true h.symm

/-! ### One step -/

theorem scan_nil : scan [] = [] := by rw [scan]

/-- Where a number begins, it is the first token, and scanning goes on behind it. -/
theorem scan_cons_number {c : Char} (h : startsNumber c = true) (cs : List Char) :
    scan (c :: cs) = number (String.ofList (c :: (numberTail (c == '.') cs).1)) ::
      scan (numberTail (c == '.') cs).2 := by
  rw [scan, if_pos h]

/-- Where a name begins, it is the first token, as long as it goes on. -/
theorem scan_cons_name {c : Char} (h : startsName c = true) (cs : List Char) :
    scan (c :: cs) = name (String.ofList (c :: cs.takeWhile continuesName)) ::
      scan (cs.dropWhile continuesName) := by
  have hnumber : ¬ startsNumber c = true := fun hn => by
    rw [startsName_of_startsNumber hn] at h; exact Bool.false_ne_true h
  rw [scan, if_neg hnumber, if_pos h]

/-- Any other character is a sign or none, and scanning goes on with the next. -/
theorem scan_cons_other {c : Char} (hnumber : startsNumber c = false) (hname : startsName c = false)
    (cs : List Char) : scan (c :: cs) = (ofSign? c).toList ++ scan cs := by
  rw [scan, if_neg (Bool.eq_false_iff.1 hnumber), if_neg (Bool.eq_false_iff.1 hname)]
  cases ofSign? c <;> rfl

/-- A character that no name goes on with is a sign, or it is dropped. -/
theorem scan_cons_separator {c : Char} (h : continuesName c = false) (cs : List Char) :
    scan (c :: cs) = (ofSign? c).toList ++ scan cs :=
  scan_cons_other (startsNumber_of_not_continuesName h) (startsName_of_not_continuesName h) cs

/-! ### Cuts -/

/-- A number ends before a character that begins none, whatever follows. -/
theorem numberTail_append_cons {c : Char} (hc : startsNumber c = false) (pointSeen : Bool)
    (us vs : List Char) : numberTail pointSeen (us ++ c :: vs) =
      ((numberTail pointSeen us).1, (numberTail pointSeen us).2 ++ c :: vs) := by
  obtain ⟨hdigit, hpoint⟩ := Bool.or_eq_false_iff.1 hc
  induction us generalizing pointSeen with
  | nil => simp [numberTail, hdigit, hpoint]
  | cons u us ih =>
    simp only [List.cons_append, numberTail]
    split
    · rw [ih]
    · split
      · rw [ih]
      · rfl

/-- Taking while a condition holds stops before the first character that fails it, whatever follows.
-/
theorem span_append_cons {p : Char → Bool} {c : Char} (hc : p c = false) (us vs : List Char) :
    (us ++ c :: vs).takeWhile p = us.takeWhile p ∧
      (us ++ c :: vs).dropWhile p = us.dropWhile p ++ c :: vs := by
  induction us with
  | nil => simp [hc]
  | cons u us ih => cases hu : p u <;> simp [hu, ih]

/-- **A text is cut before every character that no name goes on with.** -/
theorem scan_append_cons {c : Char} (hc : continuesName c = false) (us vs : List Char) :
    scan (us ++ c :: vs) = scan us ++ scan (c :: vs) := by
  have hnumber := startsNumber_of_not_continuesName hc
  induction us using scan.induct with
  | case1 => rw [scan_nil]; rfl
  | case2 u us hu ih =>
    rw [List.cons_append, scan_cons_number hu, scan_cons_number hu, numberTail_append_cons hnumber,
      List.cons_append, ← ih]
  | case3 u us hu hu' ih =>
    obtain ⟨htake, hdrop⟩ := span_append_cons hc us vs
    rw [List.cons_append, scan_cons_name hu', scan_cons_name hu', htake, hdrop, List.cons_append,
      ← ih]
  | case4 u us hu hu' sign hsign ih =>
    rw [List.cons_append, scan_cons_other (Bool.eq_false_iff.2 hu) (Bool.eq_false_iff.2 hu'),
      scan_cons_other (Bool.eq_false_iff.2 hu) (Bool.eq_false_iff.2 hu'), ih, List.append_assoc]
  | case5 u us hu hu' hsign ih =>
    rw [List.cons_append, scan_cons_other (Bool.eq_false_iff.2 hu) (Bool.eq_false_iff.2 hu'),
      scan_cons_other (Bool.eq_false_iff.2 hu) (Bool.eq_false_iff.2 hu'), ih, List.append_assoc]

/-- No name goes on with a sign. -/
theorem not_continuesName_of_ofSign? {c : Char} {sign : Token} (h : ofSign? c = some sign) :
    continuesName c = false := by
  unfold ofSign? at h
  split at h <;> first | rfl | cases h

/-- A sign is a token of its own. -/
theorem scan_cons_sign {c : Char} {sign : Token} (h : ofSign? c = some sign) (cs : List Char) :
    scan (c :: cs) = sign :: scan cs := by
  rw [scan_cons_separator (not_continuesName_of_ofSign? h), h]; rfl

/-- A sign cuts a text in two. -/
theorem scan_append_sign {c : Char} {sign : Token} (h : ofSign? c = some sign)
    (us vs : List Char) : scan (us ++ c :: vs) = scan us ++ sign :: scan vs := by
  rw [scan_append_cons (not_continuesName_of_ofSign? h), scan_cons_sign h]

/-- **A text is cut at every sign among its tokens.** -/
theorem exists_eq_append_of_scan {cs : List Char} {before after : List Token} {sign : Token}
    (hnumber : ∀ text, sign ≠ number text) (hname : ∀ text, sign ≠ name text)
    (h : scan cs = before ++ sign :: after) :
    ∃ us c vs, cs = us ++ c :: vs ∧ ofSign? c = some sign ∧ scan us = before ∧
      scan vs = after := by
  -- once the text is cut in front of `after`, the tokens of the first part are what is left
  suffices hcut : ∃ us c vs, cs = us ++ c :: vs ∧ ofSign? c = some sign ∧ scan vs = after by
    obtain ⟨us, c, vs, rfl, hc, rfl⟩ := hcut
    rw [scan_append_sign hc] at h
    exact ⟨us, c, vs, rfl, hc, List.append_cancel_right h, rfl⟩
  induction cs using scan.induct generalizing before with
  | case1 => rw [scan_nil] at h; cases before <;> cases h
  | case2 c cs hc ih =>
    rw [scan_cons_number hc] at h
    cases before with
    | nil => exact absurd (List.cons.inj h).1.symm (hnumber _)
    | cons token before =>
      obtain ⟨us, c', vs, hcs, hsign, hvs⟩ := ih (List.cons.inj h).2
      refine ⟨c :: (numberTail (c == '.') cs).1 ++ us, c', vs, ?_, hsign, hvs⟩
      rw [List.append_assoc, ← hcs, List.cons_append, numberTail_append]
  | case3 c cs hc hc' ih =>
    rw [scan_cons_name hc'] at h
    cases before with
    | nil => exact absurd (List.cons.inj h).1.symm (hname _)
    | cons token before =>
      obtain ⟨us, c', vs, hcs, hsign, hvs⟩ := ih (List.cons.inj h).2
      refine ⟨c :: cs.takeWhile continuesName ++ us, c', vs, ?_, hsign, hvs⟩
      rw [List.append_assoc, ← hcs, List.cons_append, List.takeWhile_append_dropWhile]
  | case4 c cs hc hc' sign' hsign ih =>
    rw [scan_cons_sign hsign] at h
    cases before with
    | nil =>
      obtain ⟨rfl, rfl⟩ := List.cons.inj h
      exact ⟨[], c, cs, rfl, hsign, rfl⟩
    | cons token before =>
      obtain ⟨us, c', vs, rfl, hsign', hvs⟩ := ih (List.cons.inj h).2
      exact ⟨c :: us, c', vs, rfl, hsign', hvs⟩
  | case5 c cs hc hc' hsign ih =>
    rw [scan_cons_other (Bool.eq_false_iff.2 hc) (Bool.eq_false_iff.2 hc'), hsign] at h
    obtain ⟨us, c', vs, rfl, hsign', hvs⟩ := ih h
    exact ⟨c :: us, c', vs, rfl, hsign', hvs⟩

/-- A blank in front adds no token. -/
theorem scan_cons_blank (cs : List Char) : scan (' ' :: cs) = scan cs :=
  scan_cons_separator rfl cs

/-- A blank cuts a text in two and adds no token. -/
theorem scan_append_blank (us vs : List Char) : scan (us ++ ' ' :: vs) = scan us ++ scan vs := by
  rw [scan_append_cons rfl, scan_cons_blank]

/-! ### Lexical tokens -/

/-- Whether a token is one that a text can have. -/
def Lexical : Token → Prop
  | number text => text.toList ≠ [] ∧ (∀ c ∈ text.toList, startsNumber c = true) ∧
      text.toList.count '.' ≤ 1
  | name text => ∃ c cs, text.toList = c :: cs ∧ startsName c = true ∧
      ∀ c ∈ cs, continuesName c = true
  | _ => True

/-- A number takes digits, and a point only if it has none. -/
theorem numberTail_chars (pointSeen : Bool) (cs : List Char) :
    (∀ c ∈ (numberTail pointSeen cs).1, startsNumber c = true) ∧
      (numberTail pointSeen cs).1.count '.' ≤ if pointSeen then 0 else 1 := by
  induction cs generalizing pointSeen with
  | nil => simp [numberTail]
  | cons c cs ih =>
    simp only [numberTail]
    split
    · next hdigit =>
      have hpoint : c ≠ '.' := fun hc => by rw [hc] at hdigit; exact absurd hdigit (by decide)
      obtain ⟨hchars, hcount⟩ := ih pointSeen
      refine ⟨List.forall_mem_cons.2 ⟨by rw [startsNumber, hdigit, Bool.true_or], hchars⟩, ?_⟩
      rw [List.count_cons_of_ne hpoint]
      exact hcount
    · split
      · next hpoint =>
        obtain ⟨hc, hseen⟩ := Bool.and_eq_true_iff.1 hpoint
        obtain ⟨hchars, hcount⟩ := ih true
        refine ⟨List.forall_mem_cons.2 ⟨by rw [startsNumber, hc, Bool.or_true], hchars⟩, ?_⟩
        have hseen' : pointSeen = false := by simpa using hseen
        rw [beq_iff_eq.1 hc, List.count_cons_self, hseen']
        exact Nat.succ_le_succ hcount
      · simp

/-- Digits with a point, if there is room for one, are taken up to where a number ends. -/
theorem numberTail_append_of_ends {pointSeen : Bool} {ds rest : List Char}
    (h : ∀ c ∈ ds, startsNumber c = true) (hcount : ds.count '.' ≤ if pointSeen then 0 else 1)
    (hrest : ∀ c ∈ rest.head?, c.isDigit = false ∧ (c = '.' → pointSeen = true ∨ '.' ∈ ds)) :
    numberTail pointSeen (ds ++ rest) = (ds, rest) := by
  induction ds generalizing pointSeen with
  | nil =>
    match rest with
    | [] => rfl
    | c :: rest =>
      obtain ⟨hdigit, hpoint⟩ := hrest c rfl
      have hseen : ¬ (c == '.' && !pointSeen) = true := by simpa using hpoint
      rw [List.nil_append, numberTail, if_neg (Bool.eq_false_iff.1 hdigit), if_neg hseen]
  | cons c ds ih =>
    obtain ⟨hc, hds⟩ := List.forall_mem_cons.1 h
    rw [List.cons_append, numberTail]
    split
    · next hdigit =>
      have hpoint : '.' ≠ c := fun hc => by rw [← hc] at hdigit; exact absurd hdigit (by decide)
      rw [List.count_cons_of_ne hpoint.symm] at hcount
      have hrest' : ∀ c ∈ rest.head?, c.isDigit = false ∧
          (c = '.' → pointSeen = true ∨ '.' ∈ ds) := fun e he =>
        (hrest e he).imp_right fun hseen he => (hseen he).imp_right fun hmem =>
          (List.mem_cons.1 hmem).resolve_left hpoint
      rw [ih hds hcount hrest']
    · next hdigit =>
      have hpoint : c = '.' := by simpa [startsNumber, hdigit] using hc
      subst hpoint
      -- the only point there is room for is this one
      rw [List.count_cons_self] at hcount
      cases pointSeen with
      | true => exact absurd hcount (by simp)
      | false =>
        have hrest' : ∀ c ∈ rest.head?, c.isDigit = false ∧ (c = '.' → true = true ∨ '.' ∈ ds) :=
          fun e he => ⟨(hrest e he).1, fun _ => .inl rfl⟩
        rw [if_pos (by decide), ih hds (by simpa using hcount) hrest']

/-- Every sign is a token that can come from a text. -/
theorem lexical_of_ofSign? {c : Char} {sign : Token} (h : ofSign? c = some sign) :
    sign.Lexical := by
  unfold ofSign? at h
  split at h <;> cases h <;> exact True.intro

/-- **Every token of a text is lexical.** -/
theorem lexical_of_mem_scan {cs : List Char} {token : Token} (h : token ∈ scan cs) :
    token.Lexical := by
  induction cs using scan.induct with
  | case1 => rw [scan_nil] at h; exact absurd h List.not_mem_nil
  | case2 c cs hc ih =>
    rw [scan_cons_number hc] at h
    rcases List.mem_cons.1 h with rfl | h
    · obtain ⟨hchars, hcount⟩ := numberTail_chars (c == '.') cs
      rw [Lexical, String.toList_ofList]
      refine ⟨List.cons_ne_nil _ _, List.forall_mem_cons.2 ⟨hc, hchars⟩, ?_⟩
      rw [List.count_cons]
      cases hpoint : c == '.' <;> rw [hpoint] at hcount <;> simpa using hcount
    · exact ih h
  | case3 c cs hc hc' ih =>
    rw [scan_cons_name hc'] at h
    rcases List.mem_cons.1 h with rfl | h
    · exact ⟨c, _, String.toList_ofList .., hc', fun c hc => List.mem_takeWhile_imp hc⟩
    · exact ih h
  | case4 c cs hc hc' sign hsign ih =>
    rw [scan_cons_other (Bool.eq_false_iff.2 hc) (Bool.eq_false_iff.2 hc'), hsign] at h
    rcases List.mem_cons.1 h with rfl | h
    · exact lexical_of_ofSign? hsign
    · exact ih h
  | case5 c cs hc hc' hsign ih =>
    rw [scan_cons_other (Bool.eq_false_iff.2 hc) (Bool.eq_false_iff.2 hc'), hsign] at h
    exact ih h

/-- The first character of a number, and what it leaves room for behind it. -/
theorem exists_cons_of_lexical_number {text : String} (h : (number text).Lexical) :
    ∃ c cs, text.toList = c :: cs ∧ startsNumber c = true ∧
      (∀ d ∈ cs, startsNumber d = true) ∧ cs.count '.' ≤ if c == '.' then 0 else 1 := by
  obtain ⟨hne, hchars, hcount⟩ := h
  obtain ⟨c, cs, htext⟩ := List.exists_cons_of_ne_nil hne
  rw [htext] at hchars hcount
  obtain ⟨hc, hcs⟩ := List.forall_mem_cons.1 hchars
  refine ⟨c, cs, htext, hc, hcs, ?_⟩
  rw [List.count_cons] at hcount
  cases hpoint : c == '.' <;> rw [hpoint] at hcount <;> simpa using hcount

/-- **A number is scanned as itself.** -/
theorem scan_number {text : String} (h : (number text).Lexical) :
    scan text.toList = [number text] := by
  obtain ⟨c, cs, htext, hc, hcs, hcount⟩ := exists_cons_of_lexical_number h
  have htail : numberTail (c == '.') (cs ++ []) = (cs, []) :=
    numberTail_append_of_ends hcs hcount nofun
  rw [List.append_nil] at htail
  rw [htext, scan_cons_number hc, htail, scan_nil, ← htext, String.ofList_toList]

/-- **A name is scanned as itself.** -/
theorem scan_name {text : String} (h : (name text).Lexical) :
    scan text.toList = [name text] := by
  obtain ⟨c, cs, htext, hc, hcs⟩ := h
  have htake : cs.takeWhile continuesName = cs := List.takeWhile_eq_self_iff.2 hcs
  have hdrop : cs.dropWhile continuesName = [] := List.dropWhile_eq_nil_iff.2 hcs
  rw [htext, scan_cons_name hc, htake, hdrop, scan_nil, ← htext, String.ofList_toList]

theorem lexical_one : (number "1").Lexical :=
  ⟨by decide, List.all_eq_true.1 rfl, by decide⟩

theorem scan_one : scan ['1'] = [number "1"] :=
  scan_number lexical_one

end Token
end QubitSphere
