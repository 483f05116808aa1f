/-
# The one way to cut a text

A segmentation of a text lays it out as tokens with gaps around them (`Segments`).  It is asked that

| part | is |
| --- | --- |
| gap | characters with which no token begins |
| number | ASCII digits and at most one point, and at least one of these |
| name | a character that begins a name, and then characters that a name goes on with |

and that no number and no name goes on with the character behind it.  Nothing is said of how the
text is gone through.  Still it has one segmentation only, and `Token.scan` finds it
(`scan_segments`): what the text begins with tells what its first token is, and that the token does
not go on tells where it ends.

The argument is one token at a time.  `Token.next?` drops a gap, cuts off a token and leaves the
rest, so it finds a token with a rest exactly if they lie behind a gap like this
(`next?_eq_some_iff`), and none exactly if the whole text is a gap (`next?_eq_none_iff`).  Asking
for tokens again and again gives all that `scan` lists, and then the end of the text.

No token goes on with a character that no name goes on with.  So a text is cut at each of these, and
where it is cut more of them may stand if they are no signs (`scan_cut_and_read_separated`).
-/

import QubitSphere.Expr.Reading
import QubitSphere.Proofs.Expr.Scan

namespace QubitSphere
namespace Token

/-- The characters that a token is written with. -/
def chars : Token → List Char
  | number text | name text => text.toList
  | openParen => ['(']
  | closeParen => [')']
  | comma => [',']
  | plus => ['+']
  | minus => ['-']
  | star => ['*']
  | slash => ['/']

/-- A token is written with at least one character, so that segmentations come to an end. -/
theorem Lexical.chars_ne_nil {token : Token} (h : token.Lexical) : token.chars ≠ [] := by
  cases token with
  | number text => exact h.1
  | name text =>
    obtain ⟨c, cs, htext, -⟩ := h
    rw [chars, htext]
    exact List.cons_ne_nil c cs
  | openParen | closeParen | comma | plus | minus | star | slash => exact List.cons_ne_nil _ _

/-- Whether no token begins with a character. -/
def Dropped (c : Char) : Prop :=
  c ∉ ['(', ')', ',', '+', '-', '*', '/'] ∧ c.isDigit = false ∧ c ≠ '.' ∧ startsName c = false

/-- Whether a token goes on with a character that comes behind it. -/
def GoesOnWith : Token → Char → Prop
  | number text, c => c.isDigit = true ∨ (c = '.' ∧ '.' ∉ text.toList)
  | name _, c => continuesName c = true
  | _, _ => False

/-- Whether the first token of a text is `token`, behind a gap, and ends before `rest`. -/
def BeginsWith (cs : List Char) (token : Token) (rest : List Char) : Prop :=
  ∃ gap, cs = gap ++ (token.chars ++ rest) ∧ (∀ c ∈ gap, Dropped c) ∧ token.Lexical ∧
    ∀ c ∈ rest.head?, ¬ token.GoesOnWith c

/-- Whether a text is laid out as `tokens` with gaps around them, and none of the tokens goes on. -/
inductive Segments : List Char → List Token → Prop
  | gap {cs : List Char} : (∀ c ∈ cs, Dropped c) → Segments cs []
  | token {cs rest : List Char} {token : Token} {tokens : List Token} :
      BeginsWith cs token rest → Segments rest tokens → Segments cs (token :: tokens)

/-- The first token of a text and what is left behind it, or `none` if only a gap is left. -/
def next? : List Char → Option (Token × List Char)
  | [] => none
  | c :: cs =>
    if startsNumber c then
      some (number (String.ofList (c :: (numberTail (c == '.') cs).1)),
        (numberTail (c == '.') cs).2)
    else if startsName c then
      some (name (String.ofList (c :: cs.takeWhile continuesName)), cs.dropWhile continuesName)
    else
      match ofSign? c with
      | some sign => some (sign, cs)
      | none => next? cs

/-- What is answered when a token is asked for and `n` have been asked for before. -/
def answer (cs : List Char) : Nat → Option Token
  | 0 => (next? cs).map Prod.fst
  | n + 1 => (next? cs).bind fun found => answer found.2 n

/-! ### Characters that begin tokens -/

/-- A sign is written with its one character. -/
theorem chars_of_ofSign? {c : Char} {sign : Token} (h : ofSign? c = some sign) :
    sign.chars = [c] := by
  unfold ofSign? at h
  split at h <;> cases h <;> rfl

/-- The signs are these seven characters. -/
theorem ofSign?_eq_none_iff {c : Char} :
    ofSign? c = none ↔ c ∉ ['(', ')', ',', '+', '-', '*', '/'] := by
  unfold ofSign?
  split <;> simp_all

/-- Scanning drops a character exactly if it begins no number, no name and no sign. -/
theorem dropped_iff {c : Char} :
    Dropped c ↔ startsNumber c = false ∧ startsName c = false ∧ ofSign? c = none := by
  rw [ofSign?_eq_none_iff, Dropped, startsNumber, Bool.or_eq_false_iff, beq_eq_false_iff_ne]
  constructor
  · rintro ⟨hsign, hdigit, hpoint, hname⟩
    exact ⟨⟨hdigit, hpoint⟩, hname, hsign⟩
  · rintro ⟨⟨hdigit, hpoint⟩, hname, hsign⟩
    exact ⟨hsign, hdigit, hpoint, hname⟩

/-- A character begins a number, a name or a sign, or it is dropped. -/
theorem char_cases (c : Char) : startsNumber c = true ∨ startsName c = true ∨
    (∃ sign, ofSign? c = some sign) ∨ Dropped c := by
  by_cases hnumber : startsNumber c = true
  · exact .inl hnumber
  by_cases hname : startsName c = true
  · exact .inr (.inl hname)
  cases hsign : ofSign? c with
  | some sign => exact .inr (.inr (.inl ⟨sign, rfl⟩))
  | none =>
    exact .inr (.inr (.inr (dropped_iff.2
      ⟨Bool.eq_false_iff.2 hnumber, Bool.eq_false_iff.2 hname, hsign⟩)))

/-- Where a number begins, it is the first token. -/
theorem next?_cons_number {c : Char} (h : startsNumber c = true) (cs : List Char) :
    next? (c :: cs) = some (number (String.ofList (c :: (numberTail (c == '.') cs).1)),
      (numberTail (c == '.') cs).2) := by
  rw [next?, if_pos h]

/-- Where a name begins, it is the first token. -/
theorem next?_cons_name {c : Char} (h : startsName c = true) (cs : List Char) :
    next? (c :: cs) = some (name (String.ofList (c :: cs.takeWhile continuesName)),
      cs.dropWhile continuesName) := by
  have hnumber : ¬ startsNumber c = true := fun hn => by
    rw [startsName_of_startsNumber hn] at h; exact Bool.false_ne_true h
  rw [next?, if_neg hnumber, if_pos h]

/-- Where a sign stands, it is the first token. -/
theorem next?_cons_sign {c : Char} {sign : Token} (h : ofSign? c = some sign) (cs : List Char) :
    next? (c :: cs) = some (sign, cs) := by
  have hc := not_continuesName_of_ofSign? h
  have hnumber := startsNumber_of_not_continuesName hc
  have hname := startsName_of_not_continuesName hc
  rw [next?, if_neg (Bool.eq_false_iff.1 hnumber), if_neg (Bool.eq_false_iff.1 hname), h]

/-- A character that is dropped does not tell what the first token is. -/
theorem next?_cons_dropped {c : Char} (h : Dropped c) (cs : List Char) :
    next? (c :: cs) = next? cs := by
  obtain ⟨hnumber, hname, hsign⟩ := dropped_iff.1 h
  rw [next?, if_neg (Bool.eq_false_iff.1 hnumber), if_neg (Bool.eq_false_iff.1 hname), hsign]

/-- Nor does a gap. -/
theorem next?_append_of_dropped {gap : List Char} (h : ∀ c ∈ gap, Dropped c) (cs : List Char) :
    next? (gap ++ cs) = next? cs := by
  induction gap with
  | nil => rfl
  | cons c gap ih =>
    obtain ⟨hc, hgap⟩ := List.forall_mem_cons.1 h
    rw [List.cons_append, next?_cons_dropped hc, ih hgap]

/-! ### One token -/

/-- A number ends where it does not go on. -/
theorem numberTail_ends (pointSeen : Bool) (cs : List Char) :
    ∀ c ∈ (numberTail pointSeen cs).2.head?, c.isDigit = false ∧
      (c = '.' → pointSeen = true ∨ '.' ∈ (numberTail pointSeen cs).1) := by
  induction cs generalizing pointSeen with
  | nil => simp [numberTail]
  | cons c cs ih =>
    simp only [numberTail]
    split
    · intro e he
      obtain ⟨hdigit, hpoint⟩ := ih pointSeen e he
      exact ⟨hdigit, fun h => (hpoint h).imp_right (List.mem_cons_of_mem c)⟩
    · split
      · next hpoint =>
        intro e he
        obtain ⟨hdigit, -⟩ := ih true e he
        have hc : c = '.' := beq_iff_eq.1 (Bool.and_eq_true_iff.1 hpoint).1
        exact ⟨hdigit, fun _ => .inr (hc ▸ List.mem_cons_self)⟩
      · next hdigit hpoint =>
        intro e he
        obtain rfl : c = e := Option.some.inj he
        refine ⟨Bool.eq_false_iff.2 hdigit, fun hc => .inl ?_⟩
        subst hc
        simpa using hpoint

/-- A number that scanning cuts off has the form of one, and does not go on behind it. -/
theorem beginsWith_number {c : Char} (h : startsNumber c = true) (cs : List Char) :
    BeginsWith (c :: cs) (number (String.ofList (c :: (numberTail (c == '.') cs).1)))
      (numberTail (c == '.') cs).2 := by
  obtain ⟨hchars, hcount⟩ := numberTail_chars (c == '.') cs
  refine ⟨[], ?_, nofun, ⟨?_, ?_, ?_⟩, fun e he hgoes => ?_⟩
  · rw [chars, String.toList_ofList, List.nil_append, List.cons_append, numberTail_append]
  · rw [String.toList_ofList]
    exact List.cons_ne_nil _ _
  · rw [String.toList_ofList]
    exact List.forall_mem_cons.2 ⟨h, hchars⟩
  · rw [String.toList_ofList, List.count_cons]
    cases hpoint : c == '.' <;> rw [hpoint] at hcount <;> simpa using hcount
  · obtain ⟨hdigit, hpoint⟩ := numberTail_ends (c == '.') cs e he
    rw [GoesOnWith, String.toList_ofList, hdigit] at hgoes
    obtain ⟨he, hmem⟩ := hgoes.resolve_left Bool.false_ne_true
    rw [List.mem_cons, not_or] at hmem
    rcases hpoint he with hc | hc
    · exact hmem.1 (beq_iff_eq.1 hc).symm
    · exact hmem.2 hc

/-- A name that scanning cuts off has the form of one, and does not go on behind it. -/
theorem beginsWith_name {c : Char} (h : startsName c = true) (cs : List Char) :
    BeginsWith (c :: cs) (name (String.ofList (c :: cs.takeWhile continuesName)))
      (cs.dropWhile continuesName) := by
  refine ⟨[], ?_, nofun, ⟨c, _, String.toList_ofList, h, fun e he => List.mem_takeWhile_imp he⟩,
    fun e he hgoes => ?_⟩
  · rw [chars, String.toList_ofList, List.nil_append, List.cons_append,
      List.takeWhile_append_dropWhile]
  · have hend := List.head?_dropWhile_not continuesName cs
    rw [Option.mem_def.1 he] at hend
    exact Bool.eq_false_iff.1 hend hgoes

/-- A sign never goes on. -/
theorem beginsWith_sign {c : Char} {sign : Token} (h : ofSign? c = some sign) (cs : List Char) :
    BeginsWith (c :: cs) sign cs := by
  refine ⟨[], by rw [chars_of_ofSign? h]; rfl, nofun, lexical_of_ofSign? h, fun e he => ?_⟩
  unfold ofSign? at h
  split at h <;> cases h <;> exact id

/-- A gap may be longer. -/
theorem BeginsWith.cons {c : Char} {cs rest : List Char} {token : Token} (hc : Dropped c)
    (h : BeginsWith cs token rest) : BeginsWith (c :: cs) token rest := by
  obtain ⟨gap, rfl, hgap, h⟩ := h
  exact ⟨c :: gap, rfl, List.forall_mem_cons.2 ⟨hc, hgap⟩, h⟩

/-- **What is found as the first token of a text is.** -/
theorem beginsWith_of_next? {cs rest : List Char} {token : Token}
    (h : next? cs = some (token, rest)) : BeginsWith cs token rest := by
  induction cs with
  | nil => cases h
  | cons c cs ih =>
    rcases char_cases c with hc | hc | ⟨sign, hc⟩ | hc
    · rw [next?_cons_number hc] at h
      cases h
      exact beginsWith_number hc cs
    · rw [next?_cons_name hc] at h
      cases h
      exact beginsWith_name hc cs
    · rw [next?_cons_sign hc] at h
      cases h
      exact beginsWith_sign hc rest
    · rw [next?_cons_dropped hc] at h
      exact (ih h).cons hc

/-- A token is found where it stands, if it does not go on. -/
theorem next?_chars_append {token : Token} (h : token.Lexical) {rest : List Char}
    (hrest : ∀ c ∈ rest.head?, ¬ token.GoesOnWith c) :
    next? (token.chars ++ rest) = some (token, rest) := by
  cases token with
  | number text =>
    obtain ⟨c, cs, htext, hc, hcs, hcount⟩ := exists_cons_of_lexical_number h
    have hends : ∀ e ∈ rest.head?, e.isDigit = false ∧
        (e = '.' → (c == '.') = true ∨ '.' ∈ cs) := by
      intro e he
      have hgoes := hrest e he
      rw [GoesOnWith, htext, not_or, not_and_not_right, List.mem_cons] at hgoes
      refine ⟨Bool.eq_false_iff.2 hgoes.1, fun hpoint => (hgoes.2 hpoint).imp_left fun hc => ?_⟩
      exact beq_iff_eq.2 hc.symm
    rw [chars, htext, List.cons_append, next?_cons_number hc,
      numberTail_append_of_ends hcs hcount hends, ← htext, String.ofList_toList]
  | name text =>
    obtain ⟨c, cs, htext, hc, hcs⟩ := h
    have hend : rest.takeWhile continuesName = [] ∧ rest.dropWhile continuesName = rest := by
      match rest with
      | [] => exact ⟨rfl, rfl⟩
      | e :: rest =>
        have he : continuesName e = false := Bool.eq_false_iff.2 (hrest e rfl)
        exact ⟨List.takeWhile_cons_of_neg (by simp [he]), List.dropWhile_cons_of_neg (by simp [he])⟩
    rw [chars, htext, List.cons_append, next?_cons_name hc, List.takeWhile_append_of_pos hcs,
      List.dropWhile_append_of_pos hcs, hend.1, hend.2, List.append_nil, ← htext,
      String.ofList_toList]
  | openParen | closeParen | comma | plus | minus | star | slash => exact next?_cons_sign rfl rest

/-- **The first token of a text, and the rest behind it, are found.** -/
theorem next?_eq_some_iff {cs rest : List Char} {token : Token} :
    next? cs = some (token, rest) ↔ BeginsWith cs token rest := by
  refine ⟨beginsWith_of_next?, ?_⟩
  rintro ⟨gap, rfl, hgap, hlex, hrest⟩
  rw [next?_append_of_dropped hgap, next?_chars_append hlex hrest]

/-- **No token is found exactly if no character begins one.** -/
theorem next?_eq_none_iff {cs : List Char} : next? cs = none ↔ ∀ c ∈ cs, Dropped c := by
  constructor
  · intro h
    induction cs with
    | nil => exact nofun
    | cons c cs ih =>
      rcases char_cases c with hc | hc | ⟨sign, hc⟩ | hc
      · rw [next?_cons_number hc] at h; cases h
      · rw [next?_cons_name hc] at h; cases h
      · rw [next?_cons_sign hc] at h; cases h
      · rw [next?_cons_dropped hc] at h
        exact List.forall_mem_cons.2 ⟨hc, ih h⟩
  · intro h
    have hnext := next?_append_of_dropped h []
    rwa [List.append_nil] at hnext

/-! ### All tokens -/

/-- **Scanning finds one token after another.** -/
theorem scan_eq (cs : List Char) : scan cs =
    match next? cs with
    | none => []
    | some (token, rest) => token :: scan rest := by
  induction cs with
  | nil => exact scan_nil
  | cons c cs ih =>
    rcases char_cases c with hc | hc | ⟨sign, hc⟩ | hc
    · rw [next?_cons_number hc, scan_cons_number hc]
    · rw [next?_cons_name hc, scan_cons_name hc]
    · rw [next?_cons_sign hc, scan_cons_sign hc]
    · obtain ⟨hnumber, hname, hsign⟩ := dropped_iff.1 hc
      rw [next?_cons_dropped hc, scan_cons_other hnumber hname, hsign]
      exact ih

/-- Scanning lists the first token and goes on behind it. -/
theorem scan_of_next?_eq_some {cs rest : List Char} {token : Token}
    (h : next? cs = some (token, rest)) : scan cs = token :: scan rest := by
  rw [scan_eq, h]

/-- Scanning lists nothing where only a gap is left. -/
theorem scan_of_next?_eq_none {cs : List Char} (h : next? cs = none) : scan cs = [] := by
  rw [scan_eq, h]

/-- A token leaves less of the text. -/
theorem BeginsWith.length_lt {cs rest : List Char} {token : Token}
    (h : BeginsWith cs token rest) : rest.length < cs.length := by
  obtain ⟨gap, rfl, -, hlex, -⟩ := h
  have hne : token.chars ≠ [] := hlex.chars_ne_nil
  have hpos := List.length_pos_iff.2 hne
  rw [List.length_append, List.length_append]
  omega

/-- **The tokens of a text are laid out in it.** -/
theorem segments_scan (cs : List Char) : Segments cs (scan cs) := by
  cases hnext : next? cs with
  | none =>
    rw [scan_of_next?_eq_none hnext]
    exact .gap (next?_eq_none_iff.1 hnext)
  | some found =>
    obtain ⟨token, rest⟩ := found
    have hbegins := next?_eq_some_iff.1 hnext
    rw [scan_of_next?_eq_some hnext]
    exact .token hbegins (segments_scan rest)
termination_by cs.length
decreasing_by exact hbegins.length_lt

/-- **No other tokens are.** -/
theorem Segments.eq_scan {cs : List Char} {tokens : List Token} (h : Segments cs tokens) :
    tokens = scan cs := by
  induction h with
  | gap hgap => rw [scan_of_next?_eq_none (next?_eq_none_iff.2 hgap)]
  | token hbegins _ ih => rw [scan_of_next?_eq_some (next?_eq_some_iff.2 hbegins), ih]

/-- **Asking again and again gives the tokens of a text in order, and then none any more.** -/
theorem answer_eq (cs : List Char) (n : Nat) : answer cs n = (scan cs)[n]? := by
  induction n generalizing cs with
  | zero =>
    cases hnext : next? cs with
    | none => rw [answer, hnext, scan_of_next?_eq_none hnext]; rfl
    | some found => rw [answer, hnext, scan_of_next?_eq_some hnext]; rfl
  | succ n ih =>
    cases hnext : next? cs with
    | none => rw [answer, hnext, scan_of_next?_eq_none hnext]; rfl
    | some found =>
      rw [answer, hnext, scan_of_next?_eq_some hnext, List.getElem?_cons_succ, ← ih]
      rfl

/-- **A text has one segmentation, and scanning finds it.**  Asking for one token after another
gives its tokens, and from then on the end of the text. -/
theorem scan_segments (cs : List Char) :
    (∀ tokens, Segments cs tokens ↔ tokens = scan cs) ∧ ∀ n, answer cs n = (scan cs)[n]? := by
  refine ⟨fun tokens => ⟨Segments.eq_scan, ?_⟩, answer_eq cs⟩
  rintro rfl
  exact segments_scan cs

/-! ### Separators -/

/-- Whether a character is no sign, and no name goes on with it. -/
def Separator (c : Char) : Prop :=
  continuesName c = false ∧ c ∉ ['(', ')', ',', '+', '-', '*', '/']

/-- No token begins with a separator. -/
theorem Separator.dropped {c : Char} (h : Separator c) : Dropped c :=
  dropped_iff.2 ⟨startsNumber_of_not_continuesName h.1, startsName_of_not_continuesName h.1,
    ofSign?_eq_none_iff.2 h.2⟩

/-- A gap in front of a text adds no token. -/
theorem scan_append_of_dropped {gap : List Char} (h : ∀ c ∈ gap, Dropped c) (cs : List Char) :
    scan (gap ++ cs) = scan cs := by
  rw [scan_eq, next?_append_of_dropped h, ← scan_eq]

/-- Separators behind a text end its last token, but add none. -/
theorem scan_append_separators {ds : List Char} (h : ∀ d ∈ ds, Separator d) (us : List Char) :
    scan (us ++ ds) = scan us := by
  match ds with
  | [] => rw [List.append_nil]
  | d :: ds =>
    have hgap := scan_append_of_dropped (fun e he => (h e he).dropped) []
    rw [List.append_nil, scan_nil] at hgap
    rw [scan_append_cons (h d List.mem_cons_self).1, hgap, List.append_nil]

/-- **A text is cut at every character that no name goes on with**, and separators next to such a
character change nothing of what is read, be it an expression or an error. -/
theorem scan_cut_and_read_separated {c : Char} (hc : continuesName c = false)
    (us vs : List Char) :
    scan (us ++ c :: vs) = scan us ++ (ofSign? c).toList ++ scan vs ∧
      ∀ ds : List Char, (∀ d ∈ ds, Separator d) →
        Expr.read (String.ofList (us ++ ds ++ c :: vs)) =
            Expr.read (String.ofList (us ++ c :: vs)) ∧
          Expr.read (String.ofList (us ++ c :: (ds ++ vs))) =
            Expr.read (String.ofList (us ++ c :: vs)) := by
  have hcut (us vs : List Char) :
      scan (us ++ c :: vs) = scan us ++ (ofSign? c).toList ++ scan vs := by
    rw [scan_append_cons hc, scan_cons_separator hc, List.append_assoc]
  refine ⟨hcut us vs, fun ds hds => ?_⟩
  simp only [Expr.read, String.toList_ofList, hcut]
  rw [scan_append_separators hds, scan_append_of_dropped fun d hd => (hds d hd).dropped]
  exact ⟨rfl, rfl⟩

/-- The text `1.+2)` is cut at its sign, and an unknown symbol and a blank may stand on either side
of it. -/
theorem scan_cut_and_read_onePlusTwo :
    continuesName '+' = false ∧ (∀ d ∈ ['^', ' '], Separator d) ∧
      scan ['1', '.', '+', '2', ')'] = scan ['1', '.'] ++ [plus] ++ scan ['2', ')'] ∧
      Expr.read (String.ofList ['1', '.', '^', ' ', '+', '2', ')']) =
        Expr.read (String.ofList ['1', '.', '+', '2', ')']) ∧
      Expr.read (String.ofList ['1', '.', '+', '^', ' ', '2', ')']) =
        Expr.read (String.ofList ['1', '.', '+', '2', ')']) := by
  have hc : continuesName '+' = false := rfl
  have hds : ∀ d ∈ ['^', ' '], Separator d :=
    List.forall_mem_cons.2 ⟨⟨rfl, by decide⟩, List.forall_mem_singleton.2 ⟨rfl, by decide⟩⟩
  obtain ⟨hcut, hread⟩ := scan_cut_and_read_separated hc ['1', '.'] ['2', ')']
  exact ⟨hc, hds, hcut, hread ['^', ' '] hds⟩

end Token
end QubitSphere
