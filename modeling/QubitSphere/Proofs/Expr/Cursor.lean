/-
# Reading with a cursor

The readers hand on what is left to read, and each is told how many levels are open.  The same can
be done in place: a `Cursor` counts the tokens taken and the levels open, and reading a part of an
expression moves it (`walk`).

| part | does |
| --- | --- |
| chain | an operand, then the tail |
| tail | a sign of the rank, an operand and the tail again, or nothing |
| power | takes `pow (` and has its arguments one level deeper, or is a unary |
| unary | takes `-` and has a unary one level deeper, or is a primary |
| primary | takes a number or a name, or has a group one level deeper |
| group | a sum, and takes `)` |

A level is opened before a part that is one level deeper, and closed again however that part ends.
As nothing in `walk` says that it ends, it is given fuel, and ends if any fuel from some amount on
brings it to the same outcome (`ComesTo`).  Nor does anything in it say that it stays among the
tokens.  It does both because it agrees with the readers (`Finds`): from any place among the tokens
it comes to the same error or the same expression as they do, and leaves ahead what they leave
(`walks_phrase`).  As the readers leave fewer tokens than they were given, the cursor has moved
(`walk_restores`).
-/

import QubitSphere.Proofs.Expr.Positions

namespace QubitSphere
namespace Expr

/-- How far reading has come. -/
structure Cursor where
  /-- The tokens taken. -/
  taken : Nat
  /-- The levels open. -/
  depth : Nat
  /-- The most levels that were open at once. -/
  deepest : Nat

namespace Cursor

/-- Moves over `n` tokens. -/
def advance (n : Nat) (cursor : Cursor) : Cursor :=
  { cursor with taken := cursor.taken + n }

/-- Opens a level. -/
def deeper (cursor : Cursor) : Cursor :=
  { cursor with
    depth := cursor.depth + 1
    deepest := max cursor.deepest (cursor.depth + 1) }

/-- Closes a level. -/
def outer (cursor : Cursor) : Cursor :=
  { cursor with depth := cursor.depth - 1 }

end Cursor

/-- Reading that moves a cursor.  An error leaves the cursor where it came; reading that runs out of
fuel has no result. -/
abbrev InPlace (α : Type) := ExceptT SyntaxError (StateT Cursor Option) α

namespace InPlace

/-- The token `offset` tokens behind the cursor, or `none` behind the last. -/
def token? (tokens : List Token) (offset : Nat) : InPlace (Option Token) := do
  return tokens[(← get).taken + offset]?

/-- Moves the cursor over `n` tokens. -/
def advance (n : Nat) : InPlace Unit :=
  modify (·.advance n)

/-- Takes the next token if it is `token`, and tells whether it is. -/
def accept (tokens : List Token) (token : Token) : InPlace Bool := do
  if (← token? tokens 0) = some token then
    advance 1
    return true
  else
    return false

/-- Takes the next token, which has to be `expected`. -/
def demand (tokens : List Token) (expected : Token) : InPlace Unit := do
  let found ← token? tokens 0
  advance 1
  if found = some expected then return () else throw (.unexpected expected found)

/-- Reads with one more level open, unless `most` are open. -/
def nested {α : Type} (most : Nat) (read : InPlace α) : InPlace α := fun start =>
  if start.depth < most then do
    let (result, finish) ← read start.deeper
    -- an error closes the level as well
    return (result, finish.outer)
  else
    return (.error (.tooDeep most), start)

end InPlace

/-- What can be read with a cursor. -/
inductive Part where
  | phrase (phrase : Phrase)
  /-- The signs and operands of a chain behind `first`. -/
  | tail (rank : Rank) (first : Expr)
  /-- The arguments of a power and the parenthesis that closes them. -/
  | arguments
  /-- A sum and the parenthesis that closes it. -/
  | group

section Walk

open InPlace

/-- Reads a part at the cursor, if that takes no more than `fuel` readings within one another. -/
def walk (most : Nat) (tokens : List Token) : Nat → Part → InPlace Expr
  | 0, _ => fun _ => none
  | fuel + 1, .phrase (.chain rank) => do
    let first ← walk most tokens fuel (.phrase rank.operand)
    walk most tokens fuel (.tail rank first)
  | fuel + 1, .tail rank first => do
    match (← token? tokens 0).bind rank.operation? with
    | none => return first
    | some operation =>
      advance 1
      let next ← walk most tokens fuel (.phrase rank.operand)
      walk most tokens fuel (.tail rank (.binary operation first next))
  | fuel + 1, .phrase .power => do
    if (← token? tokens 0) = some (.name "pow") ∧ (← token? tokens 1) = some .openParen then
      advance 2
      nested most (walk most tokens fuel .arguments)
    else
      walk most tokens fuel (.phrase .unary)
  | fuel + 1, .arguments => do
    let base ← walk most tokens fuel (.phrase .sum)
    demand tokens .comma
    let exponent ← walk most tokens fuel (.phrase .sum)
    demand tokens .closeParen
    return .pow base exponent
  | fuel + 1, .phrase .unary => do
    if ← accept tokens .minus then
      let operand ← nested most (walk most tokens fuel (.phrase .unary))
      return .negate operand
    else
      walk most tokens fuel (.phrase .primary)
  | fuel + 1, .phrase .primary => do
    let found ← token? tokens 0
    advance 1
    match found with
    | none => throw .endedEarly
    | some (.number text) =>
      match Literal.ofText? text with
      | some literal => return .number literal
      | none => throw (.malformedNumber text)
    | some (.name text) =>
      if ← accept tokens .openParen then
        let argument ← nested most (walk most tokens fuel .group)
        return .call text argument
      else
        return .name text
    | some .openParen => nested most (walk most tokens fuel .group)
    | some token => throw (.noOperand token)
  | fuel + 1, .group => do
    let inner ← walk most tokens fuel (.phrase .sum)
    demand tokens .closeParen
    return inner

end Walk

/-- What the readers find for a part, with `depth` levels open around it. -/
def readPart (limit : Option Nat) (depth : Nat) :
    Part → List Token → Except SyntaxError (Expr × List Token)
  | .phrase phrase, tokens => readPhrase limit depth phrase tokens
  | .tail rank first, tokens => readTail limit depth rank first tokens
  | .arguments, tokens => do
    let (base, rest₁) ← readPhrase limit depth .sum tokens
    let rest₂ ← take .comma rest₁
    let (exponent, rest₃) ← readPhrase limit depth .sum rest₂
    let rest₄ ← take .closeParen rest₃
    return (.pow base exponent, rest₄)
  | .group, tokens => readClosed limit depth tokens

/-! ### What lies ahead -/

namespace Cursor

variable {tokens : List Token} {cursor : Cursor}

/-- The tokens not taken yet. -/
def ahead (tokens : List Token) (cursor : Cursor) : List Token :=
  tokens.drop cursor.taken

/-- The token at an offset behind the cursor is the one at that offset ahead. -/
theorem getElem?_ahead (tokens : List Token) (cursor : Cursor) (offset : Nat) :
    tokens[cursor.taken + offset]? = (cursor.ahead tokens)[offset]? :=
  List.getElem?_drop.symm

/-- Moving over tokens drops them from what lies ahead. -/
theorem ahead_advance (tokens : List Token) (cursor : Cursor) (n : Nat) :
    (cursor.advance n).ahead tokens = (cursor.ahead tokens).drop n := by
  rw [ahead, ahead, List.drop_drop]
  rfl

/-- Whether the cursor stands among the tokens, before `ahead` and with `depth` levels open. -/
structure At (tokens ahead : List Token) (depth : Nat) (cursor : Cursor) : Prop where
  ahead_eq : cursor.ahead tokens = ahead
  taken_le : cursor.taken ≤ tokens.length
  depth_eq : cursor.depth = depth

/-- A cursor that moves over tokens ahead of it stays among the tokens. -/
theorem At.advance {ahead : List Token} {depth n : Nat} (h : cursor.At tokens ahead depth)
    (hn : n ≤ ahead.length) : (cursor.advance n).At tokens (ahead.drop n) depth := by
  refine ⟨by rw [ahead_advance, h.ahead_eq], ?_, h.depth_eq⟩
  have hlength := congrArg List.length h.ahead_eq
  rw [Cursor.ahead, List.length_drop] at hlength
  have htaken := h.taken_le
  have hsum : cursor.taken + n ≤ tokens.length := by omega
  exact hsum

/-- A cursor that moves over the next token stays among the tokens. -/
theorem At.next {ahead : List Token} {token : Token} {depth : Nat}
    (h : cursor.At tokens (token :: ahead) depth) : (cursor.advance 1).At tokens ahead depth :=
  At.advance h (Nat.le_add_left 1 ahead.length)

/-- Opening a level leaves the cursor in its place. -/
theorem At.deeper {ahead : List Token} {depth : Nat} (h : cursor.At tokens ahead depth) :
    cursor.deeper.At tokens ahead (depth + 1) :=
  ⟨h.ahead_eq, h.taken_le, congrArg (· + 1) h.depth_eq⟩

end Cursor

/-! ### Steps of the cursor -/

namespace InPlace

variable {α β : Type} {tokens : List Token} {start mid : Cursor} {action : InPlace α}

/-- What comes behind a result starts where that result left the cursor. -/
theorem bind_of_ok {next : α → InPlace β} {a : α} (h : action start = some (.ok a, mid)) :
    (action >>= next) start = next a mid := by
  simp only [bind, ExceptT.bind, ExceptT.mk, StateT.bind, h]
  rfl

/-- Nothing comes behind an error, which leaves the cursor where it came. -/
theorem bind_of_error {next : α → InPlace β} {cause : SyntaxError}
    (h : action start = some (.error cause, mid)) :
    (action >>= next) start = some (.error cause, mid) := by
  simp only [bind, ExceptT.bind, ExceptT.mk, StateT.bind, h]
  rfl

/-- Looking at a token moves nothing. -/
theorem token?_eq (tokens : List Token) (offset : Nat) (start : Cursor) :
    token? tokens offset start = some (.ok (start.ahead tokens)[offset]?, start) := by
  rw [← start.getElem?_ahead]
  rfl

/-- Moving the cursor always succeeds, also behind the last token. -/
theorem advance_eq (n : Nat) (start : Cursor) :
    advance n start = some (.ok (), start.advance n) := rfl

/-- A token that may come is taken if it does. -/
theorem accept_of_eq {token : Token} {rest : List Token}
    (h : start.ahead tokens = token :: rest) :
    accept tokens token start = some (.ok true, start.advance 1) := by
  rw [accept, bind_of_ok (token?_eq tokens 0 start), h, if_pos (List.getElem?_cons_zero ..)]
  rfl

/-- A token that may come and does not leaves the cursor where it is. -/
theorem accept_of_ne {token : Token} (h : ∀ rest, start.ahead tokens ≠ token :: rest) :
    accept tokens token start = some (.ok false, start) := by
  have hne : (start.ahead tokens)[0]? ≠ some token := by
    cases hahead : start.ahead tokens with
    | nil => exact nofun
    | cons token' rest => exact fun heq => h rest (by rw [hahead, Option.some.inj heq])
  rw [accept, bind_of_ok (token?_eq tokens 0 start), if_neg hne]
  rfl

/-- A token that has to come moves the cursor also if it does not come. -/
theorem demand_eq (tokens : List Token) (expected : Token) (start : Cursor) :
    demand tokens expected start =
      some ((take expected (start.ahead tokens)).map fun _ => (), start.advance 1) := by
  rw [demand, bind_of_ok (token?_eq tokens 0 start), bind_of_ok (advance_eq 1 start)]
  cases start.ahead tokens with
  | nil => rfl
  | cons token rest =>
    by_cases h : token = expected
    · rw [if_pos (by rw [h]; rfl), h, take_cons]
      rfl
    · have hne : (token :: rest)[0]? ≠ some expected := fun heq => h (Option.some.inj heq)
      rw [if_neg hne, take, expect, if_neg h]
      rfl

/-- A reading one level deeper ends as it does there, with the level closed again. -/
theorem nested_of_lt {most : Nat} {result : Except SyntaxError α} {finish : Cursor}
    (h : start.depth < most) (hread : action start.deeper = some (result, finish)) :
    nested most action start = some (result, finish.outer) := by
  rw [nested, if_pos h, hread]
  rfl

/-- Where as many levels are open as may be, a nested reading does not begin. -/
theorem nested_of_not_lt {most : Nat} (h : ¬ start.depth < most) :
    nested most action start = some (.error (.tooDeep most), start) :=
  if_neg h

end InPlace

/-! ### Enough fuel -/

/-- Whether reading comes to `outcome` with any fuel from some amount on. -/
def ComesTo {α : Type} (action : Nat → InPlace α) (start : Cursor)
    (outcome : Except SyntaxError α × Cursor) : Prop :=
  ∃ enough, ∀ fuel, enough ≤ fuel → action fuel start = some outcome

namespace ComesTo

variable {α β : Type} {action : Nat → InPlace α} {next : Nat → α → InPlace β} {start mid : Cursor}
  {outcome : Except SyntaxError α × Cursor}

/-- What needs no fuel comes to its outcome with any. -/
theorem of_forall (h : ∀ fuel, action fuel start = some outcome) : ComesTo action start outcome :=
  ⟨0, fun fuel _ => h fuel⟩

/-- The fuel a part spends on itself. -/
theorem of_succ (h : ComesTo (fun fuel => action (fuel + 1)) start outcome) :
    ComesTo action start outcome := by
  obtain ⟨enough, h⟩ := h
  refine ⟨enough + 1, fun fuel hle => ?_⟩
  obtain ⟨fuel, rfl⟩ := Nat.exists_eq_add_of_le' (Nat.le_trans (Nat.le_add_left 1 enough) hle)
  exact h fuel (Nat.le_of_succ_le_succ hle)

/-- **Two readings come to their outcome with as much fuel as the one that needs more.** -/
theorem bind {a : α} {outcome : Except SyntaxError β × Cursor}
    (h : ComesTo action start (.ok a, mid))
    (hnext : ComesTo (fun fuel => next fuel a) mid outcome) :
    ComesTo (fun fuel => action fuel >>= next fuel) start outcome := by
  obtain ⟨enough, h⟩ := h
  obtain ⟨enough', hnext⟩ := hnext
  refine ⟨max enough enough', fun fuel hle => ?_⟩
  have hfirst := h fuel (Nat.le_trans (Nat.le_max_left ..) hle)
  exact (InPlace.bind_of_ok hfirst).trans (hnext fuel (Nat.le_trans (Nat.le_max_right ..) hle))

/-- An error is the outcome of all that was to come behind it. -/
theorem bind_error {cause : SyntaxError} (h : ComesTo action start (.error cause, mid)) :
    ComesTo (fun fuel => action fuel >>= next fuel) start (.error cause, mid) := by
  obtain ⟨enough, h⟩ := h
  exact ⟨enough, fun fuel hle => InPlace.bind_of_error (h fuel hle)⟩

/-- A nested reading needs no more fuel than what it reads. -/
theorem nested {most : Nat} {result : Except SyntaxError α} {finish : Cursor}
    (hlt : start.depth < most) (h : ComesTo action start.deeper (result, finish)) :
    ComesTo (fun fuel => InPlace.nested most (action fuel)) start (result, finish.outer) := by
  obtain ⟨enough, h⟩ := h
  exact ⟨enough, fun fuel hle => InPlace.nested_of_lt hlt (h fuel hle)⟩

end ComesTo

/-! ### Agreement with the readers -/

/-- Whether reading ended as the readers do in the tokens ahead, with as many levels open as before
it and never more than allowed. -/
structure Ends {α : Type} (most : Nat) (tokens : List Token) (start finish : Cursor)
    (result : Except SyntaxError α) (found : Except SyntaxError (α × List Token)) : Prop where
  found_eq : found = result.map fun a => (a, finish.ahead tokens)
  taken_le : ∀ a, result = .ok a → finish.taken ≤ tokens.length
  depth_eq : finish.depth = start.depth
  deepest_le : finish.deepest ≤ max start.deepest most

/-- Whether reading ends so. -/
def Finds {α : Type} (most : Nat) (tokens : List Token) (start : Cursor) (action : Nat → InPlace α)
    (found : Except SyntaxError (α × List Token)) : Prop :=
  ∃ result finish, ComesTo action start (result, finish) ∧
    Ends most tokens start finish result found

namespace Finds

variable {α β : Type} {most depth : Nat} {tokens ahead : List Token} {start mid : Cursor}
  {action : Nat → InPlace α} {found : Except SyntaxError (α × List Token)}

/-- Where reading ends does not depend on the fuel that it spends on itself. -/
theorem of_succ (h : Finds most tokens start (fun fuel => action (fuel + 1)) found) :
    Finds most tokens start action found := by
  obtain ⟨result, finish, hcomes, hends⟩ := h
  exact ⟨result, finish, .of_succ hcomes, hends⟩

/-- Reading that has a result already finds it where the cursor is. -/
theorem pure (h : start.At tokens ahead depth) (a : α) :
    Finds most tokens start (fun _ => Pure.pure a) (.ok (a, ahead)) :=
  ⟨.ok a, start, .of_forall fun _ => rfl, h.ahead_eq ▸ rfl, fun _ _ => h.taken_le, rfl,
    Nat.le_max_left _ _⟩

/-- Reading that fails finds its error and leaves all ahead. -/
theorem throw (cause : SyntaxError) :
    Finds most tokens start (fun _ => (MonadExcept.throw cause : InPlace α)) (.error cause) :=
  ⟨.error cause, start, .of_forall fun _ => rfl, rfl, nofun, rfl, Nat.le_max_left _ _⟩

/-- A step that opens no level, and what comes behind it. -/
theorem step {action : InPlace α} {next : Nat → α → InPlace β} {a : α}
    {found : Except SyntaxError (β × List Token)} (hstep : action start = some (.ok a, mid))
    (hdepth : mid.depth = start.depth) (hdeepest : mid.deepest = start.deepest)
    (h : Finds most tokens mid (fun fuel => next fuel a) found) :
    Finds most tokens start (fun fuel => action >>= next fuel) found := by
  obtain ⟨result, finish, hcomes, hends⟩ := h
  exact ⟨result, finish, .bind (.of_forall fun _ => hstep) hcomes, hends.found_eq, hends.taken_le,
    hends.depth_eq.trans hdepth, hdeepest ▸ hends.deepest_le⟩

/-- A look at a token finds what is found in view of that token. -/
theorem token? {offset : Nat} {next : Nat → Option Token → InPlace α}
    (hstart : start.At tokens ahead depth)
    (h : Finds most tokens start (fun fuel => next fuel ahead[offset]?) found) :
    Finds most tokens start (fun fuel => InPlace.token? tokens offset >>= next fuel) found := by
  rw [← hstart.ahead_eq] at h
  exact step (InPlace.token?_eq tokens offset start) rfl rfl h

/-- Reading behind skipped tokens finds what is found there. -/
theorem advance {n : Nat} {next : Nat → Unit → InPlace α}
    (h : Finds most tokens (start.advance n) (fun fuel => next fuel ()) found) :
    Finds most tokens start (fun fuel => InPlace.advance n >>= next fuel) found :=
  step (InPlace.advance_eq n start) rfl rfl h

/-- A token that has to come, and what comes behind it. -/
theorem demand {expected : Token} {next : Nat → Unit → InPlace α}
    {found' : List Token → Except SyntaxError (α × List Token)}
    (hstart : start.At tokens ahead depth)
    (hnext : ∀ rest, ahead = expected :: rest → (start.advance 1).At tokens rest depth →
      Finds most tokens (start.advance 1) (fun fuel => next fuel ()) (found' rest)) :
    Finds most tokens start (fun fuel => InPlace.demand tokens expected >>= next fuel)
      (take expected ahead >>= found') := by
  have hdemand := InPlace.demand_eq tokens expected start
  rw [hstart.ahead_eq] at hdemand
  cases htake : take expected ahead with
  | error cause =>
    rw [htake] at hdemand
    exact ⟨.error cause, start.advance 1, .bind_error (.of_forall fun _ => hdemand), rfl, nofun,
      rfl, Nat.le_max_left _ _⟩
  | ok rest =>
    rw [htake] at hdemand
    obtain rfl := eq_cons_of_take htake
    exact step hdemand rfl rfl (hnext rest rfl hstart.next)

/-- Two readings one after the other. -/
theorem bind {next : Nat → α → InPlace β}
    {found' : α × List Token → Except SyntaxError (β × List Token)}
    (hdepth : start.depth = depth) (h : Finds most tokens start action found)
    (hnext : ∀ a rest mid, found = .ok (a, rest) → Cursor.At tokens rest depth mid →
      Finds most tokens mid (fun fuel => next fuel a) (found' (a, rest))) :
    Finds most tokens start (fun fuel => action fuel >>= next fuel) (found >>= found') := by
  obtain ⟨result, mid, hcomes, hends⟩ := h
  obtain rfl := hends.found_eq
  cases result with
  | error cause =>
    exact ⟨.error cause, mid, .bind_error hcomes, rfl, nofun, hends.depth_eq, hends.deepest_le⟩
  | ok a =>
    have hmid : Cursor.At tokens (mid.ahead tokens) depth mid :=
      ⟨rfl, hends.taken_le a rfl, hends.depth_eq.trans hdepth⟩
    obtain ⟨result, finish, hcomes', hends'⟩ := hnext a _ mid rfl hmid
    refine ⟨result, finish, .bind hcomes hcomes', hends'.found_eq, hends'.taken_le,
      hends'.depth_eq.trans hends.depth_eq, ?_⟩
    have hdeepest := hends.deepest_le
    have hdeepest' := hends'.deepest_le
    omega

/-- A reading one level deeper, if one more level is allowed. -/
theorem nested (hstart : start.At tokens ahead depth)
    (h : depth + 1 ≤ most → Finds most tokens start.deeper action found) :
    Finds most tokens start (fun fuel => InPlace.nested most (action fuel))
      (allow (some most) (depth + 1) >>= fun _ => found) := by
  obtain rfl := hstart.depth_eq
  by_cases hle : start.depth + 1 ≤ most
  · have hallow : allow (some most) (start.depth + 1) = .ok () := if_pos hle
    obtain ⟨result, finish, hcomes, hends⟩ := h hle
    rw [hallow]
    refine ⟨result, finish.outer, .nested hle hcomes, hends.found_eq, hends.taken_le, ?_, ?_⟩
    · exact congrArg (· - 1) hends.depth_eq
    · have hdeepest : finish.deepest ≤ max (max start.deepest (start.depth + 1)) most :=
        hends.deepest_le
      rw [Nat.max_assoc, Nat.max_eq_right hle] at hdeepest
      exact hdeepest
  · have hallow : allow (some most) (start.depth + 1) = .error (.tooDeep most) := if_neg hle
    rw [hallow]
    exact ⟨.error (.tooDeep most), start, .of_forall fun _ => InPlace.nested_of_not_lt hle, rfl,
      nofun, rfl, Nat.le_max_left _ _⟩

end Finds

/-! ### The parts -/

/-- Whether reading a part finds, wherever `ahead` lies ahead, what the readers find in it. -/
def Walks (most : Nat) (tokens : List Token) (part : Part) (ahead : List Token) : Prop :=
  ∀ ⦃start : Cursor⦄ ⦃depth : Nat⦄, start.At tokens ahead depth → depth ≤ most →
    Finds most tokens start (fun fuel => walk most tokens fuel part)
      (readPart (some most) depth part ahead)

namespace Walks

variable {most : Nat} {tokens ahead : List Token}

/-- A part one level deeper. -/
theorem nested {part : Part} (h : Walks most tokens part ahead) {start : Cursor} {depth : Nat}
    (hstart : start.At tokens ahead depth) :
    Finds most tokens start (fun fuel => InPlace.nested most (walk most tokens fuel part))
      (allow (some most) (depth + 1) >>= fun _ => readPart (some most) (depth + 1) part ahead) :=
  .nested hstart (h hstart.deeper)

/-- **The tail of a chain**: the operands are read as the reader of operands reads them, and each
round leaves less ahead, so that the induction is on the tokens ahead and not on the fuel. -/
theorem tail {rank : Rank} {n : Nat} {ahead : List Token}
    (hoperand : ∀ ahead : List Token, ahead.length < n →
      Walks most tokens (.phrase rank.operand) ahead)
    (first : Expr) (hn : ahead.length ≤ n) : Walks most tokens (.tail rank first) ahead := by
  intro start depth hstart hdepth
  refine .of_succ ?_
  simp only [walk]
  rw [readPart]
  refine .token? hstart ?_
  match ahead with
  | [] =>
    rw [readTail_nil]
    exact .pure hstart first
  | sign :: ahead =>
    rw [List.getElem?_cons_zero, Option.bind_some]
    cases hsign : rank.operation? sign with
    | none =>
      rw [readTail_cons_of_none _ _ hsign]
      exact .pure hstart first
    | some operation =>
      rw [readTail_cons_of_some _ _ hsign]
      refine .advance (.bind hstart.depth_eq (hoperand ahead hn hstart.next hdepth) ?_)
      intro next rest mid hread hmid
      have hlt : rest.length < ahead.length := length_lt_of_readPhrase hread
      rw [List.length_cons] at hn
      have hn' : rest.length ≤ n := by omega
      exact tail hoperand _ hn' hmid hdepth
termination_by ahead.length
decreasing_by exact Nat.lt_succ_of_lt hlt

/-- **A chain** is walked as its first operand and then its tail, in fewer tokens. -/
theorem chain {rank : Rank} (h : Walks most tokens (.phrase rank.operand) ahead)
    (hrest : ∀ rest : List Token, rest.length < ahead.length →
      Walks most tokens (.phrase rank.operand) rest) :
    Walks most tokens (.phrase (.chain rank)) ahead := by
  intro start depth hstart hdepth
  refine .of_succ ?_
  simp only [walk]
  rw [readPart, readPhrase_chain]
  refine .bind hstart.depth_eq (h hstart hdepth) fun first rest mid hfirst hmid => ?_
  exact tail hrest first (length_lt_of_readPhrase hfirst).le hmid hdepth

/-- **What closes a group** is walked as a sum and the parenthesis behind it. -/
theorem group (h : Walks most tokens (.phrase .sum) ahead) :
    Walks most tokens .group ahead := by
  intro start depth hstart hdepth
  refine .of_succ ?_
  simp only [walk]
  rw [readPart, readClosed]
  refine .bind hstart.depth_eq (h hstart hdepth) fun inner rest mid _ hmid => ?_
  exact .demand hmid fun rest' _ hfinish => .pure hfinish inner

/-- **The arguments of a power** are walked as two sums; the second has fewer tokens ahead. -/
theorem arguments (h : Walks most tokens (.phrase .sum) ahead)
    (hrest : ∀ rest : List Token, rest.length < ahead.length →
      Walks most tokens (.phrase .sum) rest) :
    Walks most tokens .arguments ahead := by
  intro start depth hstart hdepth
  refine .of_succ ?_
  simp only [walk]
  rw [readPart]
  refine .bind hstart.depth_eq (h hstart hdepth) fun base rest₁ mid₁ hbase hmid₁ => ?_
  refine .demand hmid₁ fun rest₂ hcomma hmid₂ => ?_
  have hlt : rest₁.length < ahead.length := length_lt_of_readPhrase hbase
  rw [hcomma, List.length_cons] at hlt
  refine .bind hmid₂.depth_eq (hrest rest₂ (by omega) hmid₂ hdepth)
    fun exponent rest₃ mid₃ _ hmid₃ => ?_
  exact .demand hmid₃ fun rest₄ _ hfinish => .pure hfinish _

/-- **A power** is walked as its arguments one level deeper, behind the two tokens that begin it, or
as a unary. -/
theorem power (h : Walks most tokens (.phrase .unary) ahead)
    (hrest : ∀ rest : List Token, rest.length < ahead.length →
      Walks most tokens (.phrase .sum) rest) :
    Walks most tokens (.phrase .power) ahead := by
  intro start depth hstart hdepth
  refine .of_succ ?_
  simp only [walk]
  rw [readPart]
  refine .token? hstart (.token? hstart ?_)
  by_cases hpow : [.name "pow", .openParen] <+: ahead
  · obtain ⟨ahead, rfl⟩ := hpow
    have hshort : ∀ rest : List Token, rest.length ≤ ahead.length →
        rest.length < ([Token.name "pow", .openParen] ++ ahead).length := by
      intro rest hle
      rw [List.length_append]
      exact Nat.lt_of_le_of_lt hle (Nat.lt_add_of_pos_left Nat.two_pos)
    have harguments : Walks most tokens .arguments ahead :=
      arguments (hrest ahead (hshort ahead le_rfl)) fun rest hlt => hrest rest (hshort rest hlt.le)
    -- the two tokens that the cursor looks ahead at are the prefix that the reader matches
    have hcall : ([Token.name "pow", .openParen] ++ ahead)[0]? = some (.name "pow") ∧
        ([Token.name "pow", .openParen] ++ ahead)[1]? = some .openParen := ⟨rfl, rfl⟩
    simp only [if_pos hcall]
    rw [List.cons_append, List.singleton_append, readPhrase_pow]
    exact .advance (harguments.nested hstart.next.next)
  · have hcall : ¬ (ahead[0]? = some (.name "pow") ∧ ahead[1]? = some .openParen) := by
      rintro ⟨hname, hopen⟩
      match ahead with
      | [] => cases hname
      | [_] => cases hopen
      | _ :: _ :: rest =>
        cases hname
        cases hopen
        exact hpow ⟨rest, rfl⟩
    simp only [readPhrase_power_of_not_pow _ _ hpow, if_neg hcall]
    exact h hstart hdepth

/-- **A unary** is walked as the one behind its minus sign, one level deeper, or as a primary. -/
theorem unary (h : Walks most tokens (.phrase .primary) ahead)
    (hrest : ∀ rest : List Token, rest.length < ahead.length →
      Walks most tokens (.phrase .unary) rest) :
    Walks most tokens (.phrase .unary) ahead := by
  intro start depth hstart hdepth
  refine .of_succ ?_
  simp only [walk]
  rw [readPart]
  by_cases hminus : ∃ ahead', ahead = .minus :: ahead'
  · obtain ⟨ahead, rfl⟩ := hminus
    have haccept := InPlace.accept_of_eq hstart.ahead_eq
    have hoperand := (hrest ahead (by simp)).nested hstart.next
    rw [readPhrase_minus, ← bind_assoc]
    refine .step haccept rfl rfl (.bind hstart.next.depth_eq hoperand ?_)
    exact fun operand rest mid _ hmid => .pure hmid _
  · have hne : ∀ rest, ahead ≠ .minus :: rest := fun rest h => hminus ⟨rest, h⟩
    have haccept := InPlace.accept_of_ne fun rest => hstart.ahead_eq ▸ hne rest
    rw [readPhrase_unary_of_not_minus _ _ hne]
    exact .step haccept rfl rfl (h hstart hdepth)

/-- **A primary** is walked by its first token, which it takes even if no operand begins with it. -/
theorem primary
    (hrest : ∀ rest : List Token, rest.length < ahead.length →
      Walks most tokens (.phrase .sum) rest) :
    Walks most tokens (.phrase .primary) ahead := by
  intro start depth hstart hdepth
  refine .of_succ ?_
  simp only [walk]
  rw [readPart]
  refine .token? hstart (.advance ?_)
  match ahead with
  | [] =>
    rw [readPhrase_primary_nil]
    exact .throw .endedEarly
  | .number text :: ahead =>
    rw [readPhrase_number, List.getElem?_cons_zero]
    dsimp only
    cases Literal.ofText? text with
    | some literal => exact .pure hstart.next _
    | none => exact .throw _
  | .openParen :: ahead =>
    rw [readPhrase_group]
    exact (hrest ahead (by simp)).group.nested hstart.next
  | .name text :: ahead =>
    by_cases hcall : ∃ ahead', ahead = .openParen :: ahead'
    · obtain ⟨ahead, rfl⟩ := hcall
      have hshort : ahead.length < (Token.name text :: .openParen :: ahead).length :=
        Nat.lt_add_of_pos_right Nat.two_pos
      have haccept := InPlace.accept_of_eq hstart.next.ahead_eq
      have hargument := (hrest ahead hshort).group.nested hstart.next.next
      rw [readPhrase_call, ← bind_assoc]
      refine .step haccept rfl rfl (.bind hstart.next.next.depth_eq hargument ?_)
      exact fun argument rest mid _ hmid => .pure hmid _
    · have hne : ∀ rest, ahead ≠ .openParen :: rest := fun rest h => hcall ⟨rest, h⟩
      have haccept := InPlace.accept_of_ne fun rest => hstart.next.ahead_eq ▸ hne rest
      rw [readPhrase_name _ _ hne]
      exact .step haccept rfl rfl (.pure hstart.next _)
  | .minus :: _ | .closeParen :: _ | .comma :: _ | .plus :: _ | .star :: _ | .slash :: _ =>
    rw [readPhrase_primary_of_sign _ _ (by simp) (by simp) (by simp)]
    exact .throw _

end Walks

/-- **Reading a phrase with a cursor finds what its reader finds.** -/
theorem walks_phrase (most : Nat) (tokens : List Token) (phrase : Phrase) (ahead : List Token) :
    Walks most tokens (.phrase phrase) ahead :=
  readers_induction (P := fun phrase ahead => Walks most tokens (.phrase phrase) ahead)
    (fun _ => .primary) (fun _ => .unary) (fun _ => .power) (fun _ _ => .chain) phrase ahead

/-- A phrase or a group takes at least one token. -/
theorem length_lt_of_readPart {limit : Option Nat} {depth : Nat} {part : Part}
    (hpart : part = .group ∨ ∃ phrase, part = .phrase phrase) {tokens rest : List Token} {t : Expr}
    (h : readPart limit depth part tokens = .ok (t, rest)) : rest.length < tokens.length := by
  rcases hpart with rfl | ⟨phrase, rfl⟩
  · rw [readPart, ← plain_readGroup] at h
    exact Reading.length_lt h
  · exact length_lt_of_readPhrase h

/-- **Reading a phrase or a group with a cursor ends**, and finds what its reader finds.  It leaves
as many levels open as it found and never opens more than allowed, whether an expression was read or
not; and if one was, the cursor has moved, but not past the last token. -/
theorem walk_restores {part : Part} (hpart : part = .group ∨ ∃ phrase, part = .phrase phrase)
    {tokens : List Token} {taken depth : Nat} (htaken : taken ≤ tokens.length)
    (hdepth : depth ≤ maxDepth) :
    ∃ result finish,
      ComesTo (fun fuel => walk maxDepth tokens fuel part) ⟨taken, depth, depth⟩ (result, finish) ∧
      finish.depth = depth ∧ finish.deepest ≤ maxDepth ∧
      (∀ t, result = .ok t → taken < finish.taken ∧ finish.taken ≤ tokens.length) ∧
      readPart (some maxDepth) depth part (tokens.drop taken) =
        result.map fun t => (t, tokens.drop finish.taken) := by
  have hstart : Cursor.At tokens (tokens.drop taken) depth ⟨taken, depth, depth⟩ :=
    ⟨rfl, htaken, rfl⟩
  have hwalks : Walks maxDepth tokens part (tokens.drop taken) := by
    rcases hpart with rfl | ⟨phrase, rfl⟩
    · exact (walks_phrase maxDepth tokens .sum _).group
    · exact walks_phrase maxDepth tokens phrase _
  obtain ⟨result, finish, hcomes, hends⟩ := hwalks hstart hdepth
  refine ⟨result, finish, hcomes, hends.depth_eq, ?_, fun t ht => ⟨?_, hends.taken_le t ht⟩,
    hends.found_eq⟩
  · exact Nat.le_trans hends.deepest_le (Nat.max_le.2 ⟨hdepth, le_rfl⟩)
  · have hfound := hends.found_eq
    rw [ht] at hfound
    have hlt := length_lt_of_readPart hpart hfound
    rw [Cursor.ahead, List.length_drop, List.length_drop] at hlt
    omega

/-- Behind the first of two minus signs, with one level left: the second takes it, so that the
parenthesis is too deep. -/
theorem walk_restores_lastLevel :
    1 ≤ [Token.minus, .minus, .openParen].length ∧ 255 ≤ maxDepth ∧
      ∃ result finish,
        ComesTo (fun fuel => walk maxDepth [.minus, .minus, .openParen] fuel (.phrase .unary))
          ⟨1, 255, 255⟩ (result, finish) ∧
        finish.depth = 255 ∧ finish.deepest ≤ maxDepth ∧
        (∀ t, result = .ok t → 1 < finish.taken ∧ finish.taken ≤ 3) ∧
        readPart (some maxDepth) 255 (.phrase .unary) [.minus, .openParen] =
          result.map fun t => (t, [Token.minus, .minus, .openParen].drop finish.taken) := by
  have htaken : 1 ≤ [Token.minus, .minus, .openParen].length := by decide
  have hdepth : 255 ≤ maxDepth := by decide
  exact ⟨htaken, hdepth, walk_restores (.inr ⟨.unary, rfl⟩) htaken hdepth⟩

-- an error can come from behind the last token; the level is closed all the same
example : walk maxDepth [.openParen] 11 (.phrase .sum) ⟨0, 0, 0⟩ =
    some (.error .endedEarly, ⟨2, 0, 1⟩) := rfl

end Expr
end QubitSphere
