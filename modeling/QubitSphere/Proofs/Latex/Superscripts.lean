/-
# Double superscripts

TeX refuses a base with two superscripts: a group `^{...}` may not be followed by another `^`
(`DoubleSuperscript`).  The base of a power is put in braces unless it is a number, a name or a
call, and for all of these but one that is enough:

| base | formula of its square |
| --- | --- |
| `x` | `x^{2}` |
| `sin(x)` | `\sin{x}^{2}` |
| `pow(x, 3)` | `{x^{3}}^{2}` |
| `exp(1)` | `e^{2}` |
| `exp(x)` | `e^{x}^{2}` |

A call of `exp` on anything but `1` and `1.0` is shown as a power itself, and it has no braces.  So
a formula has a double superscript exactly if such a call is the base of a power in its expression
(`doubleSuperscript_latexOrEmpty_iff`).  The argument goes along the row of the expression: what
follows a row matters only by its first character, and only if the row ends with a superscript
(`Doubles`).
-/

import QubitSphere.Proofs.Latex.Brackets

namespace QubitSphere
namespace Latex

/-- What comes behind the brace that closes the first of `depth + 1` open braces. -/
def afterClosing : Nat → List Char → Option (List Char)
  | _, [] => none
  | depth, c :: cs =>
    if c = '{' then afterClosing (depth + 1) cs
    else if c = '}' then if depth = 0 then some cs else afterClosing (depth - 1) cs
    else afterClosing depth cs

/-- Whether some group `^{...}`, up to the brace that closes it, is followed by another `^`. -/
def DoubleSuperscript (cs : List Char) : Prop :=
  ∃ group rest, '^' :: '{' :: group <:+ cs ∧ afterClosing 0 group = some ('^' :: rest)

/-! ### Closing braces -/

/-- Characters that are no braces neither open nor close a group. -/
theorem afterClosing_append_of_not_mem {cs : List Char} (hopen : '{' ∉ cs) (hclose : '}' ∉ cs)
    (depth : Nat) (rest : List Char) :
    afterClosing depth (cs ++ rest) = afterClosing depth rest := by
  induction cs with
  | nil => rfl
  | cons c cs ih =>
    rw [List.mem_cons, not_or] at hopen hclose
    rw [List.cons_append, afterClosing, if_neg (Ne.symm hopen.1), if_neg (Ne.symm hclose.1),
      ih hopen.2 hclose.2]

/-- Brackets that match close none that was open before. -/
theorem WellBracketed.afterClosing_append {cs : List Char} (h : WellBracketed cs) (depth : Nat)
    (rest : List Char) : afterClosing depth (cs ++ rest) = afterClosing depth rest := by
  induction h generalizing depth rest with
  | nil => rfl
  | plain h =>
    simp only [List.mem_cons, not_or] at h
    exact afterClosing_append_of_not_mem (by simpa using Ne.symm h.1)
      (by simpa using Ne.symm h.2.1) depth rest
  | braces h ih =>
    rw [List.cons_append, List.append_assoc]
    exact ih (depth + 1) _
  | parens h ih =>
    rw [List.append_assoc, afterClosing_append_of_not_mem (by decide) (by decide),
      List.append_assoc, ih, afterClosing_append_of_not_mem (by decide) (by decide)]
  | append h h' ih ih' => rw [List.append_assoc, ih, ih']

/-! ### Double superscripts behind a character -/

theorem doubleSuperscript_nil : ¬ DoubleSuperscript [] := by
  rintro ⟨group, rest, hgroup, -⟩
  exact absurd (List.suffix_nil.1 hgroup) (List.cons_ne_nil _ _)

/-- A double superscript begins with a `^`, so any other character in front does not matter. -/
theorem doubleSuperscript_cons {c : Char} (hc : c ≠ '^') (cs : List Char) :
    DoubleSuperscript (c :: cs) ↔ DoubleSuperscript cs := by
  have hstart (group : List Char) : '^' :: '{' :: group ≠ c :: cs := fun h =>
    hc (List.cons.inj h).1.symm
  simp only [DoubleSuperscript, List.suffix_cons_iff, hstart, false_or]

/-- A text without `^` in front does not matter. -/
theorem doubleSuperscript_append {cs : List Char} (h : '^' ∉ cs) (rest : List Char) :
    DoubleSuperscript (cs ++ rest) ↔ DoubleSuperscript rest := by
  induction cs with
  | nil => exact Iff.rfl
  | cons c cs ih =>
    have hc : c ≠ '^' := fun hc => h (hc ▸ List.mem_cons_self)
    exact (doubleSuperscript_cons hc _).trans (ih fun hmem => h (List.mem_cons_of_mem _ hmem))

/-- A superscript is doubled by the `^` behind it, or there is another double one within it or
further on. -/
theorem doubleSuperscript_superscript {group : List Char} (h : WellBracketed group)
    (rest : List Char) :
    DoubleSuperscript ('^' :: '{' :: (group ++ '}' :: rest)) ↔
      rest.head? = some '^' ∨ DoubleSuperscript (group ++ '}' :: rest) := by
  have hclosing : afterClosing 0 (group ++ '}' :: rest) = some rest := h.afterClosing_append 0 _
  refine Iff.trans ?_ (or_congr_right (doubleSuperscript_cons (show '{' ≠ '^' by decide) _))
  constructor
  · rintro ⟨found, behind, hfound, hbehind⟩
    rcases List.suffix_cons_iff.1 hfound with heq | hfound
    · obtain rfl : found = group ++ '}' :: rest := (List.cons.inj (List.cons.inj heq).2).2
      exact .inl (Option.some.inj (hclosing.symm.trans hbehind) ▸ rfl)
    · exact .inr ⟨found, behind, hfound, hbehind⟩
  · rintro (hrest | ⟨found, behind, hfound, hbehind⟩)
    · obtain ⟨behind, rfl⟩ := List.head?_eq_some_iff.1 hrest
      exact ⟨_, behind, List.suffix_rfl, hclosing⟩
    · exact ⟨found, behind, hfound.trans (List.suffix_cons _ _), hbehind⟩

/-! ### Double superscripts in a row -/

/-- There is a double superscript in what a row is spelled as exactly if `within` holds; with more
behind it there may be one further on, and if the row is `raised` at its end then a `^` doubles
it. -/
def Doubles (row : List Box) (within raised : Prop) : Prop :=
  ∀ rest, DoubleSuperscript (spell row ++ rest) ↔
    within ∨ DoubleSuperscript rest ∨ raised ∧ rest.head? = some '^'

namespace Doubles

variable {row row' inner : List Box} {within within' raised raised' : Prop}

theorem nil : Doubles [] False False := by
  intro rest
  simp

/-- The two conditions may be replaced by equivalent ones. -/
theorem congr (h : Doubles row within raised) (hwithin : within ↔ within')
    (hraised : raised ↔ raised') : Doubles row within' raised' := by
  rwa [← propext hwithin, ← propext hraised]

theorem letter {c : Char} (hc : Token.continuesName c = true) (h : Doubles row within raised) :
    Doubles (.letter c :: row) within raised := by
  intro rest
  have hcaret : '^' ∉ (Piece.letter c).chars := by
    intro hmem
    obtain ⟨-, heq⟩ | ⟨-, heq⟩ := chars_letter c <;> rw [heq] at hmem
    · exact absurd hmem (by decide)
    · exact not_mem_of_continuesName hc (List.mem_singleton.1 hmem ▸ by decide)
  rw [spell_letter, List.append_assoc, doubleSuperscript_append hcaret, h]

/-- In the letters of a name there is no superscript. -/
theorem letters {text : String} (h : ∀ c ∈ text.toList, Token.continuesName c = true) :
    Doubles (letters text) False False := by
  rw [Latex.letters]
  generalize text.toList = cs at h
  induction cs with
  | nil => exact .nil
  | cons c cs ih =>
    exact .letter (h c List.mem_cons_self) (ih fun d hd => h d (List.mem_cons_of_mem _ hd))

/-- A sign in front does not matter if it is no caret. -/
theorem sign {s : Sign} (hs : s ≠ .caret) (h : Doubles row within raised) :
    Doubles (.sign s :: row) within raised := by
  intro rest
  have hcaret : '^' ∉ s.text.toList := by
    cases s <;> first | contradiction | decide
  rw [spell_sign, List.append_assoc, doubleSuperscript_append hcaret, h]

/-- The double superscripts of a group are those within it; its closing bracket parts it from what
comes behind. -/
theorem group (bracket : Bracket) (h : Doubles inner within raised)
    (h' : Doubles row within' raised') :
    Doubles (.group bracket inner :: row) (within ∨ within') raised' := by
  intro rest
  have hopening : '^' ∉ bracket.opening.toList := by cases bracket <;> decide
  have hclosing : '^' ∉ bracket.closing.toList := by cases bracket <;> decide
  have hhead (cs : List Char) : (bracket.closing.toList ++ cs).head? ≠ some '^' := by
    cases bracket <;> exact fun h => absurd (Option.some.inj h) (by decide)
  rw [spell_group, List.append_assoc, doubleSuperscript_append hopening, List.append_assoc, h,
    List.append_assoc, doubleSuperscript_append hclosing, h']
  simp only [hhead, and_false, or_false, or_assoc]

/-- A superscript at the end can be doubled only where the row is not grouped. -/
theorem grouped {bracket : Bracket} {enclosed : Bool} (h : Doubles row within raised) :
    Doubles (grouped bracket enclosed row) within (enclosed = false ∧ raised) := by
  cases enclosed with
  | true => exact (h.group bracket .nil).congr (or_false _).to_iff (by simp)
  | false => exact h.congr Iff.rfl (by simp)

/-- A superscript at the end of a row. -/
theorem superscript (hinner : Legible inner) (h : Doubles inner within raised) :
    Doubles [.sign .caret, .group .brace inner] within True := by
  intro rest
  have htext : spell [.sign .caret, .group .brace inner] ++ rest =
      '^' :: '{' :: (spell inner ++ '}' :: rest) := by
    simp [Sign.text, Bracket.opening, Bracket.closing]
  have hbrace : ('}' :: rest).head? ≠ some '^' := fun h =>
    absurd (Option.some.inj h) (by decide)
  rw [htext, doubleSuperscript_superscript (wellBracketed_spell hinner), h,
    doubleSuperscript_cons (by decide)]
  simp only [hbrace, and_false, or_false, true_and]
  rw [or_comm, or_assoc]

/-- A sign that is no superscript. -/
theorem append_sign {s : Sign} (h : Doubles row within raised) (hs : s ≠ .caret)
    (h' : Doubles row' within' raised') :
    Doubles (row ++ .sign s :: row') (within ∨ within') raised' := by
  intro rest
  have hhead : (spell (.sign s :: row') ++ rest).head? ≠ some '^' := by
    cases s <;> first | contradiction | exact fun h => absurd (Option.some.inj h) (by decide)
  rw [spell_append, List.append_assoc, h, h'.sign hs]
  simp only [hhead, and_false, or_false, or_assoc]

/-- A superscript behind a row. -/
theorem append_superscript (h : Doubles row within raised) (hinner : Legible inner)
    (h' : Doubles inner within' raised') :
    Doubles (row ++ [.sign .caret, .group .brace inner]) (raised ∨ within ∨ within') True := by
  intro rest
  have hhead : (spell [.sign .caret, .group .brace inner] ++ rest).head? = some '^' := by
    simp [Sign.text]
  rw [spell_append, List.append_assoc, h, superscript hinner h']
  simp only [hhead, and_true, true_and]
  tauto

end Doubles

end Latex

namespace Expr

open Latex

/-- Whether an expression is a call that is shown as a power of `e`. -/
def isExponential : Expr → Bool
  | call function argument => function == "exp" && !argument.isOne
  | _ => false

/-- Whether an exponential is the base of some power in an expression. -/
def RaisesExponential : Expr → Prop
  | number _ | name _ => False
  | negate operand => operand.RaisesExponential
  | binary _ left right => left.RaisesExponential ∨ right.RaisesExponential
  | pow base exponent =>
    base.isExponential = true ∨ base.RaisesExponential ∨ exponent.RaisesExponential
  | call _ argument => argument.RaisesExponential

/-- Whether the row of an expression ends with a superscript. -/
def EndsRaised : Expr → Place → Prop
  | number _, _ | name _, _ | binary .div _ _, _ => False
  | negate operand, _ => operand.standsAlone .unary = true ∧ operand.EndsRaised .unary
  | binary operation left right, place =>
    hasOwnParentheses (binary operation left right) place = false ∧ right.EndsRaised operation.place
  | pow .., _ => True
  | call function argument, _ => (call function argument).isExponential = true

/-- An operation on one line ends with a superscript exactly if its right operand does, and no
parenthesis closes it. -/
theorem endsRaised_binary {operation : Operation} (h : operation ≠ .div) (left right : Expr)
    (place : Place) :
    (binary operation left right).EndsRaised place ↔
      hasOwnParentheses (binary operation left right) place = false ∧
        right.EndsRaised operation.place := by
  cases operation with
  | add | sub | mul => rfl
  | div => exact absurd rfl h

/-- Only an exponential ends with a superscript where it stands alone as a base. -/
theorem standsAlone_and_endsRaised_iff (t : Expr) :
    t.standsAlone .power = true ∧ t.EndsRaised .power ↔ t.isExponential = true := by
  have hatomic (place : Place) : t.standsAlone place = true ↔
      t.isAtomic = true ∨ hasOwnParentheses t place = true := by
    rw [standsAlone, Bool.or_eq_true]
  rw [hatomic]
  cases t with
  | number | name => simp [EndsRaised, isExponential]
  | negate | pow => simp [isAtomic, hasOwnParentheses, isExponential]
  | binary operation left right =>
    cases operation <;> simp [isAtomic, isExponential, EndsRaised, hasOwnParentheses]
  | call function argument => simp [isAtomic, EndsRaised]

/-- The number 1 raises nothing. -/
theorem not_raisesExponential_of_isOne {t : Expr} (h : t.isOne = true) : ¬ t.RaisesExponential := by
  cases t with
  | number => exact not_false
  | name | negate | binary | pow | call => cases h

/-- A call of another function is no exponential. -/
theorem isExponential_of_ne {function : String} (h : function ≠ "exp") (argument : Expr) :
    (call function argument).isExponential = false := by
  rw [isExponential, beq_false_of_ne h, Bool.false_and]

/-- No command is a caret. -/
theorem ne_caret_of_command? {function : String} {command : Sign}
    (h : command? function = some command) : command ≠ .caret := by
  rintro rfl
  unfold command? at h
  split at h <;> cases h

/-- **A call adds no double superscript to those of its argument**, and ends with a superscript
exactly if it is an exponential. -/
theorem doubles_callBoxes {function : String} {argument : Expr} {row : List Box}
    {raised : Prop} (hfunction : ∀ c ∈ function.toList, Token.continuesName c = true)
    (hrow : Legible row) (h : Doubles row argument.RaisesExponential raised) :
    Doubles (callBoxes function argument row) argument.RaisesExponential
      ((call function argument).isExponential = true) := by
  obtain ⟨command, hcommand, heq⟩ | ⟨rfl, hone, heq⟩ | ⟨rfl, hone, heq⟩ | ⟨hexp, -, heq⟩ :=
    callBoxes_cases function argument row <;> rw [heq]
  · rw [isExponential_of_ne (ne_exp_of_command? hcommand)]
    exact ((h.group .brace .nil).sign (ne_caret_of_command? hcommand)).congr (or_false _).to_iff
      (by simp)
  · exact (Doubles.nil.letter (by decide +kernel)).congr
      (iff_of_false not_false (not_raisesExponential_of_isOne hone)) (by simp [isExponential, hone])
  · exact ((Doubles.superscript hrow h).letter (by decide +kernel)).congr Iff.rfl
      (by simp [isExponential, hone])
  · rw [isExponential_of_ne hexp]
    exact (((Doubles.letters hfunction).group .brace (h.group .paren .nil)).sign
      (by decide)).congr (by simp) (by simp)

/-- **The double superscripts of a row are the exponentials raised to a power.** -/
theorem doubles_boxes {t : Expr} (h : t.Readable) (place : Place) :
    Doubles (t.boxes place) t.RaisesExponential (t.EndsRaised place) := by
  induction t generalizing place with
  | number literal =>
    obtain ⟨-, hchars, -⟩ := lexical_ofLiteral h.1
    exact .letters fun c hc => Token.continuesName_of_startsNumber (hchars c hc)
  | name text =>
    dsimp only [boxes]
    split
    · exact .sign (by decide) .nil
    · exact .letters h.continuesName
  | negate operand ih =>
    refine (Doubles.grouped (ih h .unary)).sign (by decide) |>.congr Iff.rfl ?_
    rw [EndsRaised, Bool.not_eq_false']
  | binary operation left right ih ih' =>
    by_cases hdiv : operation = .div
    · subst hdiv
      refine ((ih h.1 .atom).group .brace ((ih' h.2 .atom).group .brace .nil)).sign (by decide)
        |>.congr ?_ Iff.rfl
      rw [RaisesExponential, or_false]
    · have hsign : operation.shownSign ≠ .caret := by cases operation <;> decide
      rw [boxes_binary hdiv]
      exact ((ih h.1 _).append_sign hsign (ih' h.2 _)).grouped.congr Iff.rfl
        (endsRaised_binary hdiv left right place).symm
  | pow base exponent ih ih' =>
    refine (Doubles.grouped (ih h.1 .power)).append_superscript (legible_boxes h.2 _) (ih' h.2 _)
      |>.congr ?_ Iff.rfl
    rw [RaisesExponential, Bool.not_eq_false', standsAlone_and_endsRaised_iff]
  | call function argument ih =>
    exact doubles_callBoxes h.1.continuesName (legible_boxes h.2 _) (ih h.2 .atom)

/-- **A formula has a double superscript exactly if an exponential is raised to a power.** -/
theorem doubleSuperscript_latexOrEmpty_iff (text : String) :
    DoubleSuperscript (latexOrEmpty text).toList ↔
      ∃ t, read text = .ok t ∧ t.RaisesExponential := by
  obtain ⟨⟨e, hread⟩, heq⟩ | ⟨t, hread, ht, heq⟩ := latexOrEmpty_cases text <;> rw [heq, hread]
  · refine iff_of_false doubleSuperscript_nil ?_
    rintro ⟨t, ht, -⟩
    cases ht
  · have hrow := doubles_boxes ht .atom []
    rw [List.append_nil] at hrow
    rw [hrow]
    simp [doubleSuperscript_nil]

/-- The square of `exp(x)`. -/
def squaredExponential : Expr :=
  .pow (.call "exp" (.name "x")) (.number (Literal.written "2"))

/-- The text of `squaredExponential` is read as it. -/
theorem read_squaredExponential : read "pow(exp(x), 2)" = .ok squaredExponential := by
  have hexp : (Token.name "exp").Lexical :=
    ⟨'e', ['x', 'p'], rfl, by decide, List.all_eq_true.1 rfl⟩
  have htwo : (Token.number "2").Lexical := ⟨by decide, List.all_eq_true.1 rfl, by decide⟩
  have hreadable : squaredExponential.Readable :=
    ⟨⟨hexp, Token.lexical_x⟩, htwo, Literal.ofText?_of_lexical htwo (by decide)⟩
  have hsource : squaredExponential.source = "pow(exp(x), 2)" := by decide +kernel
  exact hsource ▸ read_source_of_le hreadable ⟨⟨by decide, True.intro⟩, True.intro⟩ (by decide)

/-- The formula of `pow(exp(x), 2)` has two superscripts on one base. -/
theorem doubleSuperscript_squaredExponential :
    ∃ t, read "pow(exp(x), 2)" = .ok t ∧
      DoubleSuperscript (latexOrEmpty "pow(exp(x), 2)").toList := by
  refine ⟨_, read_squaredExponential, ['x', '}', '^', '{', '2', '}'], ['{', '2', '}'], ?_,
    by decide⟩
  rw [latexOrEmpty_of_read read_squaredExponential]
  exact ⟨['e'], by decide⟩

end Expr
end QubitSphere
