/-
# Reading a formula back

The normal form of an expression is read off its row, from the groups outwards: a row is cut into
terms at its plus and minus signs and a term into factors at its dots.  A factor is a minus sign and
a factor, or a word, a `\pi`, a group or a command with its groups, and then superscripts.  Where no
sum is subtracted, what is read is the normal form (`readsBack`).

Since a formula tells its row, two such expressions with the same formula have the same normal form
(`normalForm_eq_of_latex_eq`).
-/

import QubitSphere.Proofs.Latex.NormalForm
import QubitSphere.Proofs.Latex.Unique

namespace QubitSphere
namespace Latex

open NormalForm

/-- A box whose group is read. -/
inductive Item where
  | letter (c : Char)
  | sign (s : Sign)
  | group (content : NormalForm)

namespace Item

/-- Whether the term behind a plus or minus sign is subtracted. -/
def addition? : Item → Option Bool
  | sign .plus => some false
  | sign .minus => some true
  | _ => none

/-- Whether an item is a dot. -/
def times? : Item → Option Unit
  | sign .times => some ()
  | _ => none

end Item

/-- Cuts a row at the items with a label. -/
def parts {β : Type} (label? : Item → Option β) : List Item → List Item × List (β × List Item)
  | [] => ([], [])
  | item :: items =>
    let (first, others) := parts label? items
    match label? item with
    | some label => ([], (label, first) :: others)
    | none => (item :: first, others)

/-- The number or the name with the characters `cs`. -/
def ofWord (cs : List Char) : NormalForm :=
  if cs.head?.any Token.startsNumber then .number (String.ofList cs) else .name (String.ofList cs)

/-- Reads the superscripts that follow a base. -/
def raise : NormalForm → List Item → NormalForm
  | base, .sign .caret :: .group exponent :: items => raise (.power base exponent) items
  | base, _ => base

/-- Reads a word that goes on behind `cs`, and its superscripts. -/
def readWord : List Char → List Item → NormalForm
  | cs, .letter c :: items => readWord (cs ++ [c]) items
  | cs, items => raise (ofWord cs) items

/-- The function that a command shows: its text without the backslash. -/
def Sign.function (s : Sign) : String :=
  String.ofList s.text.toList.tail

/-- Reads a factor; a row that no formula has is read as a word. -/
def readFactor : List Item → NormalForm
  | .sign .negative :: items => .negate (readFactor items)
  | .sign .pi :: items => raise (.name "pi") items
  | .sign .frac :: .group numerator :: .group denominator :: items =>
    raise (.quotient numerator denominator) items
  | .sign .mathrm :: .group (.name function) :: .group argument :: items =>
    raise (.call function argument) items
  | .sign command :: .group argument :: items => raise (.call command.function argument) items
  | .group content :: items => raise content items
  | items => readWord [] items

/-- Reads the factors of a product. -/
def readFactors (items : List Item) : List NormalForm :=
  let (first, others) := parts Item.times? items
  readFactor first :: others.map fun other => readFactor other.2

/-- Reads a product of factors. -/
def readProduct (items : List Item) : NormalForm :=
  ofFactors (readFactors items)

/-- Reads the terms of a sum. -/
def readTerms (items : List Item) : List (Bool × NormalForm) :=
  let (first, others) := parts Item.addition? items
  (false, readProduct first) :: others.map (Prod.map id readProduct)

/-- Reads a sum of terms. -/
def readRow (items : List Item) : NormalForm :=
  ofTerms (readTerms items)

mutual

/-- The item of a box. -/
def Box.item : Box → Item
  | .letter c => .letter c
  | .sign s => .sign s
  | .group _ row => .group (readRow (items row))

/-- The items of a row. -/
def items : List Box → List Item
  | [] => []
  | box :: row => box.item :: items row

end

/-! ### Cutting -/

section Parts

variable {β : Type} {label? : Item → Option β}

/-- A row without labels is not cut. -/
theorem parts_eq_self {xs : List Item} (h : ∀ item ∈ xs, label? item = none) :
    parts label? xs = (xs, []) := by
  induction xs with
  | nil => rfl
  | cons item xs ih =>
    obtain ⟨hitem, hxs⟩ := List.forall_mem_cons.1 h
    rw [parts, ih hxs, hitem]

/-- A row is cut at a label: what comes behind it begins the next part. -/
theorem parts_append_cons {separator : Item} {label : β} (h : label? separator = some label)
    (xs ys : List Item) :
    parts label? (xs ++ separator :: ys) =
      ((parts label? xs).1,
        (parts label? xs).2 ++ (label, (parts label? ys).1) :: (parts label? ys).2) := by
  induction xs with
  | nil =>
    simp only [List.nil_append, parts, h]
  | cons item xs ih =>
    rw [List.cons_append, parts, ih, parts]
    cases label? item <;> rfl

end Parts

/-- The factors on both sides of a dot are read one after the other. -/
theorem readFactors_append_times (xs ys : List Item) :
    readFactors (xs ++ .sign .times :: ys) = readFactors xs ++ readFactors ys := by
  have htimes : (Item.sign .times).times? = some () := rfl
  simp [readFactors, parts_append_cons htimes]

/-- The terms on both sides of a plus sign are read one after the other. -/
theorem readTerms_append_plus (xs ys : List Item) :
    readTerms (xs ++ .sign .plus :: ys) = readTerms xs ++ readTerms ys := by
  have hplus : (Item.sign .plus).addition? = some false := rfl
  simp [readTerms, parts_append_cons hplus]

/-- A row without signs of a sum is read as a single term. -/
theorem readTerms_of_forall {xs : List Item} (h : ∀ item ∈ xs, item.addition? = none) :
    readTerms xs = [(false, readProduct xs)] := by
  rw [readTerms, parts_eq_self h]
  rfl

/-- A row behind a minus sign is read as a subtracted term, if it has no signs of a sum itself: else
the sign would be that of its first term alone. -/
theorem readTerms_append_minus {ys : List Item} (h : ∀ item ∈ ys, item.addition? = none)
    (xs : List Item) :
    readTerms (xs ++ .sign .minus :: ys) = readTerms xs ++ [(true, readProduct ys)] := by
  have hminus : (Item.sign .minus).addition? = some true := rfl
  simp [readTerms, parts_append_cons hminus, parts_eq_self h]

/-! ### Reading a base -/

/-- Whether no letter comes next. -/
def EndsWord (rest : List Item) : Prop :=
  ∀ c items, rest ≠ .letter c :: items

/-- A word ends where no letter comes next. -/
theorem readWord_of_endsWord {rest : List Item} (h : EndsWord rest) (cs : List Char) :
    readWord cs rest = raise (ofWord cs) rest := by
  match rest with
  | [] | .sign _ :: _ | .group _ :: _ => rfl
  | .letter c :: items => exact absurd rfl (h c items)

/-- The letters of a word are read one after the other, up to where it ends. -/
theorem readWord_append {rest : List Item} (h : EndsWord rest) (cs ds : List Char) :
    readWord cs (ds.map .letter ++ rest) = raise (ofWord (cs ++ ds)) rest := by
  induction ds generalizing cs with
  | nil => rw [List.append_nil]; exact readWord_of_endsWord h cs
  | cons d ds ih =>
    rw [List.map_cons, List.cons_append, readWord, ih, List.append_assoc, List.singleton_append]

/-- Whether a row is cut neither into terms nor into factors. -/
def Plain (xs : List Item) : Prop :=
  ∀ item ∈ xs, item.addition? = none ∧ item.times? = none

/-- Whether a row is read as the factor `x`. -/
structure ReadsAsFactor (xs : List Item) (x : NormalForm) : Prop where
  plain : Plain xs
  read : readFactor xs = x

/-- Whether a row is read as `x`, and as a power of `x` with superscripts behind it. -/
structure ReadsAsBase (xs : List Item) (x : NormalForm) : Prop where
  plain : Plain xs
  read : ∀ rest, EndsWord rest → readFactor (xs ++ rest) = raise x rest

section

variable {xs : List Item} {x : NormalForm}

/-- What reads as a factor is the only factor of its row. -/
theorem ReadsAsFactor.factors (h : ReadsAsFactor xs x) : readFactors xs = [x] := by
  rw [readFactors, parts_eq_self fun item hitem => (h.plain item hitem).2, ← h.read]
  rfl

/-- What reads as a factor is the only term of its row. -/
theorem ReadsAsFactor.terms (h : ReadsAsFactor xs x) : readTerms xs = [(false, x)] := by
  rw [readTerms_of_forall fun item hitem => (h.plain item hitem).1, readProduct, h.factors]
  rfl

/-- What reads as a factor is all of its row. -/
theorem ReadsAsFactor.row (h : ReadsAsFactor xs x) : readRow xs = x := by
  rw [readRow, h.terms]
  rfl

/-- A base is a factor: nothing stands behind it. -/
theorem ReadsAsBase.factor (h : ReadsAsBase xs x) : ReadsAsFactor xs x where
  plain := h.plain
  read := by
    have hread := h.read [] nofun
    rwa [List.append_nil] at hread

/-- A minus sign in front of a base makes a factor. -/
theorem ReadsAsBase.negated (h : ReadsAsBase xs x) :
    ReadsAsFactor (.sign .negative :: xs) (.negate x) where
  plain := List.forall_mem_cons.2 ⟨⟨rfl, rfl⟩, h.plain⟩
  read := congrArg NormalForm.negate h.factor.read

/-- A superscript behind a base makes a base, which may be raised again. -/
theorem ReadsAsBase.raised (h : ReadsAsBase xs x) (exponent : NormalForm) :
    ReadsAsBase (xs ++ [.sign .caret, .group exponent]) (.power x exponent) where
  plain := List.forall_mem_append.2
    ⟨h.plain, List.forall_mem_cons.2 ⟨⟨rfl, rfl⟩, List.forall_mem_singleton.2 ⟨rfl, rfl⟩⟩⟩
  read rest _ := by
    rw [List.append_assoc]
    exact h.read _ nofun

end

theorem readsAsBase_group (content : NormalForm) : ReadsAsBase [.group content] content :=
  ⟨List.forall_mem_singleton.2 ⟨rfl, rfl⟩, fun _ _ => rfl⟩

theorem readsAsBase_pi : ReadsAsBase [.sign .pi] (.name "pi") :=
  ⟨List.forall_mem_singleton.2 ⟨rfl, rfl⟩, fun _ _ => rfl⟩

theorem readsAsBase_frac (numerator denominator : NormalForm) :
    ReadsAsBase [.sign .frac, .group numerator, .group denominator]
      (.quotient numerator denominator) :=
  ⟨by simp [Plain, Item.addition?, Item.times?], fun _ _ => rfl⟩

/-- A function in upright letters with its argument is a base. -/
theorem readsAsBase_mathrm (function : String) (argument : NormalForm) :
    ReadsAsBase [.sign .mathrm, .group (.name function), .group argument]
      (.call function argument) :=
  ⟨by simp [Plain, Item.addition?, Item.times?], fun _ _ => rfl⟩

/-- A command with its argument is a base. -/
theorem readsAsBase_command {command : Sign} (h : command ∈ [Sign.sqrt, .sin, .cos, .tan, .ln])
    (argument : NormalForm) :
    ReadsAsBase [.sign command, .group argument] (.call command.function argument) := by
  simp only [List.mem_cons, List.not_mem_nil, or_false] at h
  rcases h with rfl | rfl | rfl | rfl | rfl <;>
    exact ⟨by simp [Plain, Item.addition?, Item.times?], fun _ _ => rfl⟩

/-- A word is a base: it ends before whatever is no letter. -/
theorem readsAsBase_word {cs : List Char} (h : cs ≠ []) :
    ReadsAsBase (cs.map .letter) (ofWord cs) where
  plain item hitem := by
    obtain ⟨c, -, rfl⟩ := List.mem_map.1 hitem
    exact ⟨rfl, rfl⟩
  read rest hrest := by
    match cs with
    | c :: cs => exact readWord_append hrest [] (c :: cs)

theorem readsAsBase_e : ReadsAsBase [.letter 'e'] (.name "e") := by
  have hword : ReadsAsBase (['e'].map .letter) (ofWord ['e']) :=
    readsAsBase_word (List.cons_ne_nil _ _)
  exact hword

/-! ### The items of a row -/

/-- The function that a command shows is the one it was printed for, but for `log`, which is shown
as `ln`. -/
theorem function_of_command? {function : String} {command : Sign}
    (h : command? function = some command) :
    command ∈ [Sign.sqrt, .sin, .cos, .tan, .ln] ∧
      command.function = if function = "log" then "ln" else function := by
  unfold command? at h
  split at h <;> cases h <;> exact ⟨by decide, by decide +kernel⟩

theorem items_append (row row' : List Box) : items (row ++ row') = items row ++ items row' := by
  induction row with
  | nil => rfl
  | cons box row ih => rw [List.cons_append, items, items, ih, List.cons_append]

theorem items_letters (text : String) : items (letters text) = text.toList.map .letter := by
  rw [letters]
  induction text.toList with
  | nil => rfl
  | cons c cs ih => rw [List.map_cons, items, ih, List.map_cons, Box.item]

/-- A number is read back: its first character is none of a name. -/
theorem readsAsBase_number {text : String} (h : (Token.number text).Lexical) :
    ReadsAsBase (items (letters text)) (.number text) := by
  obtain ⟨hne, hchars, -⟩ := h
  have hword : ofWord text.toList = .number text := by
    have hhead : text.toList.head?.any Token.startsNumber = true := by
      rw [List.head?_eq_some_head hne]
      exact hchars _ (List.head_mem hne)
    rw [ofWord, if_pos hhead, String.ofList_toList]
  rw [items_letters, ← hword]
  exact readsAsBase_word hne

/-- A name is read back: its first character is none of a number. -/
theorem readsAsBase_name {text : String} (h : (Token.name text).Lexical) :
    ReadsAsBase (items (letters text)) (.name text) := by
  have hne := h.name_ne_nil
  obtain ⟨first, rest, htext, hfirst, -⟩ := h
  have hword : ofWord text.toList = .name text := by
    have hhead : ¬ text.toList.head?.any Token.startsNumber = true := by
      rw [htext]
      exact fun hnumber => absurd (Token.startsName_of_startsNumber hnumber) (by rw [hfirst]; nofun)
    rw [ofWord, if_neg hhead, String.ofList_toList]
  rw [items_letters, ← hword]
  exact readsAsBase_word hne

end Latex

namespace Expr

open Latex NormalForm

/-! ### Rows of expressions -/

/-- The place of an expression decides on its parentheses and on nothing else. -/
theorem boxes_eq_grouped (t : Expr) (place : Place) :
    t.boxes place = grouped .paren (hasOwnParentheses t place) (t.boxes .atom) := by
  match t with
  | number _ | name _ | negate _ | binary .add .. | binary .sub .. | binary .mul .. |
    binary .div .. | pow .. | call .. => rfl

/-- A term has no parentheses. -/
theorem hasOwnParentheses_sum (t : Expr) : hasOwnParentheses t .sum = false := by
  match t with
  | number _ | name _ | negate _ | binary .add .. | binary .sub .. | binary .mul .. |
    binary .div .. | pow .. | call .. => rfl

/-- Among factors only a sum has parentheses. -/
theorem hasOwnParentheses_product (t : Expr) : hasOwnParentheses t .product = t.isSum := by
  match t with
  | number _ | name _ | negate _ | binary .add .. | binary .sub .. | binary .mul .. |
    binary .div .. | pow .. | call .. => rfl

theorem boxes_sum (t : Expr) : t.boxes .sum = t.boxes .atom := by
  rw [boxes_eq_grouped, hasOwnParentheses_sum]
  rfl

/-- A factor that is no sum looks as it does alone. -/
theorem boxes_product_of_isSum_eq_false {t : Expr} (h : t.isSum = false) :
    t.boxes .product = t.boxes .atom := by
  rw [boxes_eq_grouped, hasOwnParentheses_product, h]
  rfl

/-- The normal form of an expression can be read off its row. -/
structure ReadsBack (t : Expr) : Prop where
  /-- The terms of a row are the terms of the normal form. -/
  terms : readTerms (items (t.boxes .atom)) = t.normalForm.terms
  /-- The factors of a row are the factors of the normal form. -/
  factors : readFactors (items (t.boxes .product)) = t.normalForm.factors
  /-- A factor has no sign of a sum. -/
  unsigned : ∀ item ∈ items (t.boxes .product), item.addition? = none
  /-- What needs no group may have superscripts. -/
  base : t.isAtomic = true → ReadsAsBase (items (t.boxes .atom)) t.normalForm

namespace ReadsBack

variable {t left right : Expr}

/-- A factor of a product is read back as one product. -/
theorem product (h : t.ReadsBack) : readProduct (items (t.boxes .product)) = t.normalForm := by
  rw [readProduct, h.factors, ofFactors_factors]

/-- **The normal form can be read off the row in every place**, as parentheses around it do not
change what is read. -/
theorem row (h : t.ReadsBack) (place : Place) : readRow (items (t.boxes place)) = t.normalForm := by
  have hatom : readRow (items (t.boxes .atom)) = t.normalForm := by
    rw [readRow, h.terms, ofTerms_terms]
  rw [boxes_eq_grouped]
  cases hasOwnParentheses t place with
  | true => exact (readsAsBase_group _).factor.row.trans hatom
  | false => exact hatom

/-- A group around an expression is read as one base. -/
theorem group (h : t.ReadsBack) (bracket : Bracket) (place : Place) :
    ReadsAsBase (items [.group bracket (t.boxes place)]) t.normalForm :=
  h.row place ▸ readsAsBase_group _

/-- An operand is read as one base, with or without a group of its own. -/
theorem operand (h : t.ReadsBack) (bracket : Bracket) (place : Place) :
    ReadsAsBase (items (grouped bracket (!t.standsAlone place) (t.boxes place))) t.normalForm := by
  cases halone : t.standsAlone place with
  | false => exact h.group bracket place
  | true =>
    rw [standsAlone, Bool.or_eq_true] at halone
    rw [boxes_eq_grouped]
    -- Without braces or parentheses put around it, an operand is in its own or it is atomic.
    cases hown : hasOwnParentheses t place with
    | true => exact h.group .paren .atom
    | false => exact h.base (halone.resolve_right (hown ▸ Bool.false_ne_true))

/-- What reads as a factor, and as a base where it is atomic, can be read off its row. -/
theorem of_factor (hsum : t.isSum = false) (hproduct : t.isProduct = false)
    (h : ReadsAsFactor (items (t.boxes .atom)) t.normalForm)
    (hbase : t.isAtomic = true → ReadsAsBase (items (t.boxes .atom)) t.normalForm) :
    t.ReadsBack where
  terms := h.terms.trans (terms_of_isSum_eq_false hsum).symm
  factors := by
    rw [boxes_product_of_isSum_eq_false hsum, h.factors, factors_of_isProduct_eq_false hproduct]
  unsigned item hitem := by
    rw [boxes_product_of_isSum_eq_false hsum] at hitem
    exact (h.plain item hitem).1
  base := hbase

/-- What reads as a base can be read off its row. -/
theorem of_base (hsum : t.isSum = false) (hproduct : t.isProduct = false)
    (h : ReadsAsBase (items (t.boxes .atom)) t.normalForm) : t.ReadsBack :=
  of_factor hsum hproduct h.factor fun _ => h

/-- A sum is a single factor, in parentheses. -/
theorem of_terms (hsum : t.isSum = true)
    (h : readTerms (items (t.boxes .atom)) = t.normalForm.terms) : t.ReadsBack := by
  have hproduct : t.isProduct = false := by
    match t with
    | binary .add .. | binary .sub .. => rfl
  have hatomic : t.isAtomic = false := by
    match t with
    | binary .add .. | binary .sub .. => rfl
  have hboxes : items (t.boxes .product) = [.group t.normalForm] := by
    rw [boxes_eq_grouped, hasOwnParentheses_product, hsum, ← ofTerms_terms, ← h]
    rfl
  have hgroup := (readsAsBase_group t.normalForm).factor
  refine ⟨h, ?_, ?_, fun hbase => absurd (hatomic.symm.trans hbase) Bool.false_ne_true⟩
  · rw [hboxes, hgroup.factors, factors_of_isProduct_eq_false hproduct]
  · rw [hboxes]
    exact fun item hitem => (hgroup.plain item hitem).1

theorem add (h : left.ReadsBack) (h' : right.ReadsBack) : (binary .add left right).ReadsBack := by
  refine of_terms rfl ?_
  have hboxes : (binary .add left right).boxes .atom =
      left.boxes .sum ++ .sign .plus :: right.boxes .sum := rfl
  rw [hboxes, items_append, items, Box.item, readTerms_append_plus, boxes_sum, boxes_sum, h.terms,
    h'.terms, normalForm]
  rfl

/-- A difference is read back if what is subtracted is no sum. -/
theorem sub (h : left.ReadsBack) (h' : right.ReadsBack) (hright : right.isSum = false) :
    (binary .sub left right).ReadsBack := by
  refine of_terms rfl ?_
  have hboxes : (binary .sub left right).boxes .atom =
      left.boxes .sum ++ .sign .minus :: right.boxes .sum := rfl
  -- What is subtracted is no sum, so its row is not cut and the sign is that of all of it.
  rw [hboxes, items_append, items, Box.item, boxes_sum, boxes_sum,
    ← boxes_product_of_isSum_eq_false hright, readTerms_append_minus h'.unsigned, h.terms,
    h'.product, normalForm, terms_of_isSum_eq_false hright]
  rfl

theorem mul (h : left.ReadsBack) (h' : right.ReadsBack) : (binary .mul left right).ReadsBack := by
  have hitems : items ((binary .mul left right).boxes .product) =
      items (left.boxes .product) ++ .sign .times :: items (right.boxes .product) :=
    items_append _ _
  have hfactors : readFactors (items ((binary .mul left right).boxes .product)) =
      (binary .mul left right).normalForm.factors := by
    rw [hitems, readFactors_append_times, h.factors, h'.factors]
    rfl
  have hunsigned : ∀ item ∈ items ((binary .mul left right).boxes .product),
      item.addition? = none := by
    rw [hitems]
    exact List.forall_mem_append.2 ⟨h.unsigned, List.forall_mem_cons.2 ⟨rfl, h'.unsigned⟩⟩
  refine ⟨?_, hfactors, hunsigned, fun hatomic => absurd hatomic Bool.false_ne_true⟩
  have hboxes : (binary .mul left right).boxes .atom = (binary .mul left right).boxes .product :=
    rfl
  rw [hboxes, readTerms_of_forall hunsigned, readProduct, hfactors, ofFactors_factors]
  rfl

theorem div (h : left.ReadsBack) (h' : right.ReadsBack) : (binary .div left right).ReadsBack := by
  have hitems : items ((binary .div left right).boxes .atom) =
      [.sign .frac, .group left.normalForm, .group right.normalForm] := by
    rw [← h.row .atom, ← h'.row .atom]
    rfl
  exact of_base rfl rfl (hitems ▸ readsAsBase_frac _ _)

/-- A power is read back: its base is atomic or in a group, and its exponent always is in one. -/
theorem pow {base exponent : Expr} (h : base.ReadsBack) (h' : exponent.ReadsBack) :
    (pow base exponent).ReadsBack := by
  have hitems : items ((Expr.pow base exponent).boxes .atom) =
      items (grouped .brace (!base.standsAlone .power) (base.boxes .power)) ++
        [.sign .caret, .group exponent.normalForm] := by
    rw [← h'.row .power]
    exact items_append _ _
  exact of_base rfl rfl (hitems ▸ (h.operand .brace .power).raised _)

end ReadsBack

/-- **A call is read back as a base**, by the four ways in which it is shown. -/
theorem readsAsBase_call {function : String} {argument : Expr} {row : List Box}
    (hfunction : (Token.name function).Lexical) (hrow : readRow (items row) = argument.normalForm) :
    ReadsAsBase (items (callBoxes function argument row)) (call function argument).normalForm := by
  rw [normalForm]
  obtain ⟨command, hcommand, heq⟩ | ⟨rfl, hone, heq⟩ | ⟨rfl, hone, heq⟩ | ⟨hexp, hcommand, heq⟩ :=
    callBoxes_cases function argument row <;> rw [heq]
  · obtain ⟨hmem, hshown⟩ := function_of_command? hcommand
    simp only [items, Box.item, hrow, if_neg (ne_exp_of_command? hcommand), ← hshown]
    exact readsAsBase_command hmem _
  · rw [if_pos rfl, if_pos hone]
    exact readsAsBase_e
  · simp only [items, Box.item, hrow, if_pos, hone, if_neg Bool.false_ne_true]
    exact readsAsBase_e.raised _
  · have hlog : function ≠ "log" := by
      rintro rfl
      cases hcommand
    have hname : readRow (items (letters function)) = .name function :=
      (readsAsBase_name hfunction).factor.row
    simp only [items, Box.item, hrow, hname, if_neg hexp, if_neg hlog]
    exact readsAsBase_mathrm _ _

/-- **Where no sum is subtracted, the normal form can be read off the row.** -/
theorem readsBack {t : Expr} (h : t.Readable) (hsub : t.SubtractsNoSum) : t.ReadsBack := by
  induction t with
  | number literal =>
    refine .of_base rfl rfl ?_
    rw [normalForm, Literal.shortText_eq]
    exact readsAsBase_number (lexical_ofLiteral h.1)
  | name text =>
    refine .of_base rfl rfl ?_
    rw [normalForm_name]
    dsimp only [boxes]
    split
    · exact readsAsBase_pi
    · exact readsAsBase_name h
  | negate operand ih =>
    exact .of_factor rfl rfl ((ih h hsub).operand .paren .unary).negated
      fun hatomic => absurd hatomic Bool.false_ne_true
  | binary operation left right ih ih' =>
    have hleft := ih h.1 hsub.2.1
    have hright := ih' h.2 hsub.2.2
    cases operation with
    | add => exact hleft.add hright
    | sub => exact hleft.sub hright (hsub.1 rfl)
    | mul => exact hleft.mul hright
    | div => exact hleft.div hright
  | pow base exponent ih ih' => exact (ih h.1 hsub.1).pow (ih' h.2 hsub.2)
  | call function argument ih =>
    exact .of_base rfl rfl (readsAsBase_call h.1 ((ih h.2 hsub).row .atom))

/-- **Two expressions with the same formula have the same normal form**, if they subtract no sum. -/
theorem normalForm_eq_of_latex_eq {text text' : String} {t u : Expr} (hread : read text = .ok t)
    (hread' : read text' = .ok u) (ht : t.SubtractsNoSum) (hu : u.SubtractsNoSum)
    (h : t.latex = u.latex) : t.normalForm = u.normalForm := by
  have htree := readable_of_read hread
  have htree' := readable_of_read hread'
  have hspell : spell (t.boxes .atom) = spell (u.boxes .atom) := by
    rw [← toList_render htree, ← toList_render htree']
    exact congrArg String.toList h
  have hrow : t.boxes .atom = u.boxes .atom :=
    row_eq_of_spell_eq (legible_boxes htree _) (legible_boxes htree' _) hspell
  rw [← (readsBack htree ht).row .atom, hrow, (readsBack htree' hu).row]

/-- The difference of a logarithm and `1`, added to `2`. -/
def groupedRight : Expr :=
  .binary .add (numeral "2.0") (.binary .sub (.call "log" (.name "x")) (numeral "1"))

/-- The sum of `2` and a logarithm, less `1`. -/
def groupedLeft : Expr :=
  .binary .sub (.binary .add (numeral "2") (.call "ln" (.name "x"))) (numeral "1.0")

/-- A numeral other than the point is readable. -/
theorem readable_numeral {text : String} (h : (Token.number text).Lexical) (hne : text ≠ ".") :
    (numeral text).Readable :=
  ⟨h, Literal.ofText?_of_lexical h hne⟩

/-- The text of `groupedRight` is read as it. -/
theorem read_groupedRight : read "(2.0 + (log(x) - 1))" = .ok groupedRight := by
  have htwo : (numeral "2.0").Readable :=
    readable_numeral ⟨by decide, List.all_eq_true.1 rfl, by decide⟩ (by decide)
  have hone : (numeral "1").Readable :=
    readable_numeral ⟨by decide, List.all_eq_true.1 rfl, by decide⟩ (by decide)
  have hlog : (Token.name "log").Lexical :=
    ⟨'l', ['o', 'g'], rfl, by decide, List.all_eq_true.1 rfl⟩
  have hsource : groupedRight.source = "(2.0 + (log(x) - 1))" := by decide +kernel
  exact hsource ▸ read_source_of_le ⟨htwo, ⟨hlog, Token.lexical_x⟩, hone⟩
    ⟨trivial, ⟨by decide, trivial⟩, trivial⟩ (by decide)

/-- The text of `groupedLeft` is read as it. -/
theorem read_groupedLeft : read "((2 + ln(x)) - 1.0)" = .ok groupedLeft := by
  have htwo : (numeral "2").Readable :=
    readable_numeral ⟨by decide, List.all_eq_true.1 rfl, by decide⟩ (by decide)
  have hone : (numeral "1.0").Readable :=
    readable_numeral ⟨by decide, List.all_eq_true.1 rfl, by decide⟩ (by decide)
  have hln : (Token.name "ln").Lexical := ⟨'l', ['n'], rfl, by decide, List.all_eq_true.1 rfl⟩
  have hsource : groupedLeft.source = "((2 + ln(x)) - 1.0)" := by decide +kernel
  exact hsource ▸ read_source_of_le ⟨⟨htwo, hln, Token.lexical_x⟩, hone⟩
    ⟨⟨trivial, by decide, trivial⟩, trivial⟩ (by decide)

/-- Grouping, a final `.0` and the name of the logarithm are matters of notation. -/
theorem normalForm_eq_of_notation :
    read "(2.0 + (log(x) - 1))" = .ok groupedRight ∧
      read "((2 + ln(x)) - 1.0)" = .ok groupedLeft ∧
      groupedRight.SubtractsNoSum ∧ groupedLeft.SubtractsNoSum ∧
      groupedRight.latex = groupedLeft.latex ∧
      groupedRight.normalForm = groupedLeft.normalForm := by
  have hright : groupedRight.SubtractsNoSum := ⟨nofun, trivial, fun _ => rfl, trivial, trivial⟩
  have hleft : groupedLeft.SubtractsNoSum := ⟨fun _ => rfl, ⟨nofun, trivial, trivial⟩, trivial⟩
  have hlatex : groupedRight.latex = groupedLeft.latex := rfl
  exact ⟨read_groupedRight, read_groupedLeft, hright, hleft, hlatex,
    normalForm_eq_of_latex_eq read_groupedRight read_groupedLeft hright hleft hlatex⟩

end Expr
end QubitSphere
