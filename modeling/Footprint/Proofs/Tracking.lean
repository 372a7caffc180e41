import Footprint.Parser.Stmt
import Footprint.Proofs.GrammarSoundness
import Footprint.Proofs.Relocation

set_option autoImplicit false

/-!
Two runs of a parser, on tokens and on the same tokens moved elsewhere. The second run does what the
first does, with all positions moved. Besides, a run that gives something has gone ahead and has not
passed the end mark, and with enough depth no run fails for want of it.
-/

namespace Footprint

open Token

/-- The token `u` is `t`, moved. Where a layout token ends does not matter. -/
structure Token.MovesTo (m : Relocation) (t u : Token) : Prop where
  kind : u.kind = t.kind
  pos : u.pos = m.position t.pos
  endLine : t.kind.isLayout = false → u.endLine = m.line t.endLine

/-- The mark is not the end mark, so that a token of this kind can be passed. -/
class Token.Mark.Passable (mark : Mark) : Prop where
  other : mark ≠ .endOfFile

namespace Token.Mark

instance (k : Keyword) : Passable (.keyword k) := ⟨nofun⟩

instance (s : Symbol) : Passable (.symbol s) := ⟨nofun⟩

instance : Passable .newline := ⟨nofun⟩

instance : Passable .indent := ⟨nofun⟩

instance : Passable .dedent := ⟨nofun⟩

end Token.Mark

namespace Parser

/-- The cursor `d` is `c`, moved. The line at which the last token ends is known to be moved if
`settled`: at the beginning no token has been passed. -/
structure Cursor.MovesTo (m : Relocation) (settled : Prop) (c d : Cursor) : Prop where
  front : c.front.MovesTo m d.front
  rest : List.Forall₂ (Token.MovesTo m) c.rest d.rest
  lastLine : settled → d.lastLine = m.line c.lastLine

/-- The last token is the end mark. -/
def Cursor.Ended (c : Cursor) : Prop := ∃ t ∈ c.ahead.getLast?, t.kind = .mark .endOfFile

/-- What is ahead of `c'` has been ahead of `c`; if `strict`, something has been passed. -/
def Cursor.Reaches (strict : Bool) (c c' : Cursor) : Prop :=
  c'.ahead <:+ c.ahead ∧ (strict = true → c'.ahead.length < c.ahead.length)

section

variable {m : Relocation} {settled : Prop} {c c' c'' d : Cursor}

theorem Cursor.Reaches.refl (c : Cursor) : c.Reaches false c := ⟨List.suffix_refl _, nofun⟩

theorem Cursor.Reaches.loosen {strict strict' : Bool} (h : c.Reaches strict c')
    (looser : strict' = true → strict = true) : c.Reaches strict' c' :=
  ⟨h.1, fun passed => h.2 (looser passed)⟩

theorem Cursor.Reaches.trans {strict strict' : Bool} (h : c.Reaches strict c')
    (h' : c'.Reaches strict' c'') : c.Reaches (strict || strict') c'' := by
  refine ⟨h'.1.trans h.1, fun passed => ?_⟩
  rcases Bool.or_eq_true_iff.1 passed with passed | passed
  · exact Nat.lt_of_le_of_lt h'.1.length_le (h.2 passed)
  · exact Nat.lt_of_lt_of_le (h'.2 passed) h.1.length_le

theorem Cursor.Ended.of_reaches {strict : Bool} (h : c.Ended) (reaches : c.Reaches strict c') :
    c'.Ended := by
  obtain ⟨t, last, ended⟩ := h
  obtain ⟨passed, split⟩ := reaches.1
  refine ⟨t, ?_, ended⟩
  have some : c'.ahead ≠ [] := List.cons_ne_nil _ _
  rwa [← split, List.getLast?_append_of_ne_nil passed some] at last

theorem Cursor.Ended.reaches_next (h : c.Ended) (other : c.front.kind ≠ .mark .endOfFile) :
    c.Reaches true c.next := by
  obtain ⟨front, rest, lastLine⟩ := c
  cases rest with
  | nil =>
    obtain ⟨t, last, ended⟩ := h
    cases last
    exact absurd ended other
  | cons t ts =>
    have ahead := Cursor.ahead_next (c := ⟨front, t :: ts, lastLine⟩) rfl other
    rw [Reaches, ahead]
    exact ⟨List.suffix_cons front (t :: ts), fun _ => Nat.lt_succ_self _⟩

/-- The cursors are moved together; from then on the last line is settled if the token passed is no
layout. -/
theorem Cursor.MovesTo.next (h : c.MovesTo m settled d) (hc : c.Ended)
    (other : c.front.kind ≠ .mark .endOfFile) :
    c.next.MovesTo m (settled ∨ c.front.kind.isLayout = false) d.next := by
  obtain ⟨front, rest, lastLine⟩ := c
  obtain ⟨front', rest', lastLine'⟩ := d
  obtain ⟨hfront, hrest, hlast⟩ := h
  have unended : front.kind.isMark .endOfFile = false :=
    Bool.eq_false_iff.2 fun ended => other (Kind.isMark_iff.1 ended)
  dsimp only at hfront hrest hlast
  cases hrest with
  | nil =>
    obtain ⟨t, last, ended⟩ := hc
    cases last
    exact absurd ended other
  | cons ht hts =>
    simp only [Cursor.next, hfront.kind, unended, if_neg Bool.false_ne_true]
    refine ⟨ht, hts, fun either => ?_⟩
    cases layout : front.kind.isLayout with
    | true => exact hlast (either.resolve_right (by simp [layout]))
    | false => exact hfront.endLine layout

theorem Cursor.MovesTo.second (h : c.MovesTo m settled d) :
    d.rest.head?.map Token.kind = c.rest.head?.map Token.kind := by
  obtain ⟨front, rest, lastLine⟩ := c
  obtain ⟨front', rest', lastLine'⟩ := d
  cases h.rest with
  | nil => rfl
  | cons ht _ => exact congrArg some ht.kind

theorem Cursor.MovesTo.unsettled {settled' : Prop} (h : c.MovesTo m settled d)
    (weaker : settled' → settled) : c.MovesTo m settled' d :=
  ⟨h.front, h.rest, fun known => h.lastLine (weaker known)⟩

end

/-- Of two runs, from `c` and from where it is moved to, the second one ends as the first one does
with what is given changed by `g` and all positions moved. If `strict`, a run that gives something
has passed a token. Twenty units of the budget are enough for a token ahead; within the budget no
run fails for want of depth. -/
def Outcome {α β : Type} (m : Relocation) (settled : Prop) (strict : Bool) (budget : Nat)
    (g : α → β) (c : Cursor) (r : Except Error (α × Cursor)) (r' : Except Error (β × Cursor)) :
    Prop :=
  (∃ a c' d', r = .ok (a, c') ∧ r' = .ok (g a, d') ∧ c'.MovesTo m settled d' ∧
    c.Reaches strict c') ∨
  ∃ e, r = .error e ∧ r' = .error ⟨e.fault, m.position e.pos⟩ ∧
    (20 * c.ahead.length ≤ budget → e.fault ≠ .nestingTooDeep)

namespace Outcome

variable {α β : Type} {m : Relocation} {settled settled' : Prop} {strict strict' : Bool}
  {budget budget' : Nat} {g : α → β} {c c' : Cursor} {r : Except Error (α × Cursor)}
  {r' : Except Error (β × Cursor)}

theorem imp (h : Outcome m settled strict budget g c r r') (weaker : settled' → settled)
    (looser : strict' = true → strict = true) (le : budget' ≤ budget) :
    Outcome m settled' strict' budget' g c r r' := by
  rcases h with ⟨a, c', d', read, read', moves, reaches⟩ | ⟨e, failed, failed', deep⟩
  · exact .inl ⟨a, c', d', read, read', moves.unsettled weaker, reaches.loosen looser⟩
  · exact .inr ⟨e, failed, failed', fun enough => deep (Nat.le_trans enough le)⟩

/-- If a token has been passed before, less is ahead. -/
theorem after (h : Outcome m settled strict' budget' g c' r r') (reaches : c.Reaches strict c')
    (le : budget ≤ budget' + if strict then 20 else 0) :
    Outcome m settled (strict || strict') budget g c r r' := by
  have enough (whole : 20 * c.ahead.length ≤ budget) : 20 * c'.ahead.length ≤ budget' := by
    have fewer := reaches.1.length_le
    cases strict with
    | false => exact Nat.le_trans (Nat.mul_le_mul_left 20 fewer) (Nat.le_trans whole le)
    | true =>
      have passed := reaches.2 rfl
      rw [if_pos rfl] at le
      omega
  rcases h with ⟨a, c', d', read, read', moves, reaches'⟩ | ⟨e, failed, failed', deep⟩
  · exact .inl ⟨a, c', d', read, read', moves, reaches.trans reaches'⟩
  · exact .inr ⟨e, failed, failed', fun whole => deep (enough whole)⟩

end Outcome

section

variable {α : Type} {mark : Mark} {x y : Parse α} {c : Cursor}

theorem accept_found (found : c.front.kind.isMark mark = true) :
    (do if ← accept mark then x else y) c = (do advance; x) c := by
  change (accept mark c >>= fun r => (if r.1 = true then x else y) r.2) = _
  rw [accept, if_pos found]
  rfl

theorem accept_missing (missing : c.front.kind.isMark mark = false) :
    (do if ← accept mark then x else y) c = y c := by
  change (accept mark c >>= fun r => (if r.1 = true then x else y) r.2) = _
  rw [accept, if_neg (Bool.eq_false_iff.1 missing)]
  rfl

end

/-- Whatever token is ahead. -/
abbrev Whatever (_ : Kind) : Prop := True

/-- From where the cursor at hand is moved to, `y` does what `x` does from the cursor. -/
def Tracks {α β : Type} (m : Relocation) (settled : Prop) (ahead : Kind → Prop) (strict : Bool)
    (budget : Nat) (g : α → β) (x : Parse α) (y : Parse β) : Prop :=
  ∀ ⦃c d : Cursor⦄, c.MovesTo m settled d → c.Ended → ahead c.front.kind →
    Outcome m settled strict budget g c (x c) (y d)

namespace Tracks

variable {α β γ δ : Type} {m : Relocation} {settled : Prop} {K : Kind → Prop}
  {strict strict' : Bool} {budget : Nat} {g : α → β} {h : γ → δ}

theorem within {budget' : Nat} {x : Parse α} {y : Parse β}
    (hx : Tracks m settled K strict budget g x y) (le : budget' ≤ budget) :
    Tracks m settled K strict budget' g x y :=
  fun _ _ moves ended ahead => (hx moves ended ahead).imp id id le

theorem loosen {x : Parse α} {y : Parse β} (hx : Tracks m settled K strict budget g x y)
    (looser : strict' = true → strict = true) : Tracks m settled K strict' budget g x y :=
  fun _ _ moves ended ahead => (hx moves ended ahead).imp id looser (Nat.le_refl budget)

theorem lax {x : Parse α} {y : Parse β} (hx : Tracks m settled K strict budget g x y) :
    Tracks m settled K false budget g x y :=
  hx.loosen nofun

theorem anyhow {x : Parse α} {y : Parse β} (hx : Tracks m settled Whatever strict budget g x y) :
    Tracks m settled K strict budget g x y :=
  fun _ _ moves ended _ => hx moves ended trivial

theorem pure {a : α} {b : β} (same : b = g a) :
    Tracks m settled K false budget g (Pure.pure a : Parse α) (Pure.pure b) :=
  fun c d moves _ _ => .inl ⟨a, c, d, rfl, by rw [same]; rfl, moves, .refl c⟩

theorem failed {x : Parse α} {y : Parse β} (fault : Kind → Fault)
    (deep : ∀ k, fault k ≠ .nestingTooDeep)
    (hx : ∀ c, x c = .error ⟨fault c.front.kind, c.front.pos⟩)
    (hy : ∀ c, y c = .error ⟨fault c.front.kind, c.front.pos⟩) :
    Tracks m settled K strict budget g x y := by
  intro c d moves _ _
  refine .inr ⟨_, hx c, ?_, fun _ => deep _⟩
  rw [hy d, moves.front.kind, moves.front.pos]

theorem failHere {f : Fault} (deep : f ≠ .nestingTooDeep) :
    Tracks m settled K strict budget g (failHere f) (failHere f) :=
  failed (fun _ => f) (fun _ => deep) (fun _ => rfl) fun _ => rfl

theorem failFound {f : Kind → Fault} (deep : ∀ k, f k ≠ .nestingTooDeep) :
    Tracks m settled K strict budget g (failFound f) (failFound f) :=
  failed f deep (fun _ => rfl) fun _ => rfl

theorem fail {f : Fault} (deep : f ≠ .nestingTooDeep) (p : Position) :
    Tracks m settled K strict budget g (fail f p) (fail f (m.position p)) :=
  fun _ _ _ _ _ => .inr ⟨⟨f, p⟩, rfl, rfl, fun _ => deep⟩

/-- Without any depth there is none within the budget. -/
theorem tooDeep : Tracks m settled K strict 0 g (Parser.failHere .nestingTooDeep)
    (Parser.failHere .nestingTooDeep) := by
  intro c d moves _ _
  refine .inr ⟨_, rfl, by rw [Parser.failHere, moves.front.pos], fun enough => ?_⟩
  exact absurd enough (by simp [Cursor.ahead])

theorem seq {budget' : Nat} {x : Parse γ} {y : Parse δ} {f : γ → Parse α} {f' : δ → Parse β}
    (hx : Tracks m settled K strict' budget h x y)
    (hf : ∀ a, Tracks m settled Whatever strict budget' g (f a) (f' (h a)))
    (le : budget ≤ budget' + if strict' then 20 else 0) :
    Tracks m settled K (strict' || strict) budget g (x >>= f) (y >>= f') := by
  intro c d moves ended ahead
  have first : (x >>= f) c = x c >>= fun r => f r.1 r.2 := rfl
  have second : (y >>= f') d = y d >>= fun r => f' r.1 r.2 := rfl
  rw [first, second]
  rcases hx moves ended ahead with
    ⟨a, c', d', read, read', moves', reaches⟩ | ⟨e, failed, failed', deep⟩
  · rw [read, read']
    exact (hf a moves' (ended.of_reaches reaches) trivial).after reaches le
  · rw [failed, failed']
    exact .inr ⟨e, rfl, rfl, deep⟩

theorem bind {x : Parse γ} {y : Parse δ} {f : γ → Parse α} {f' : δ → Parse β}
    (hx : Tracks m settled K strict' budget h x y)
    (hf : ∀ a, Tracks m settled Whatever strict budget g (f a) (f' (h a))) :
    Tracks m settled K strict budget g (x >>= f) (y >>= f') := by
  have both := hx.lax.seq hf (Nat.le_refl budget)
  rwa [Bool.false_or] at both

/-- After a token has been passed. -/
theorem pass {x : Parse γ} {y : Parse δ} {f : γ → Parse α} {f' : δ → Parse β}
    (hx : Tracks m settled K true budget h x y)
    (hf : ∀ a, Tracks m settled Whatever false (budget - 20) g (f a) (f' (h a))) :
    Tracks m settled K strict budget g (x >>= f) (y >>= f') := by
  refine (hx.seq hf ?_).loosen fun _ => rfl
  rw [if_pos rfl]
  exact Nat.le_add_of_sub_le (Nat.le_refl _)

/-- A parser that only looks ahead, and at kinds alone. -/
theorem look {x : Parse γ} {f : γ → Parse α} {f' : γ → Parse β}
    (hx : ∀ ⦃c d : Cursor⦄, c.MovesTo m settled d → ∃ a, x c = .ok (a, c) ∧ x d = .ok (a, d))
    (hf : ∀ a, Tracks m settled K strict budget g (f a) (f' a)) :
    Tracks m settled K strict budget g (x >>= f) (x >>= f') := by
  intro c d moves ended ahead
  obtain ⟨a, looked, looked'⟩ := hx moves
  have first : (x >>= f) c = f a c := by
    change x c >>= (fun r => f r.1 r.2) = _
    rw [looked]
    rfl
  have second : (x >>= f') d = f' a d := by
    change x d >>= (fun r => f' r.1 r.2) = _
    rw [looked']
    rfl
  rw [first, second]
  exact hf a moves ended ahead

theorem isAt {mark : Mark} {f : Bool → Parse α} {f' : Bool → Parse β}
    (hf : ∀ b, Tracks m settled K strict budget g (f b) (f' b)) :
    Tracks m settled K strict budget g (isAt mark >>= f) (isAt mark >>= f') :=
  look (fun c d moves => ⟨_, rfl, by rw [Parser.isAt, moves.front.kind]⟩) hf

theorem isAtStatementEnd {f : Bool → Parse α} {f' : Bool → Parse β}
    (hf : ∀ b, Tracks m settled K strict budget g (f b) (f' b)) :
    Tracks m settled K strict budget g (isAtStatementEnd >>= f) (isAtStatementEnd >>= f') :=
  look (fun c d moves => ⟨_, rfl, by rw [Parser.isAtStatementEnd, moves.front.kind]⟩) hf

theorem isAtExpression {f : Bool → Parse α} {f' : Bool → Parse β}
    (hf : ∀ b, Tracks m settled K strict budget g (f b) (f' b)) :
    Tracks m settled K strict budget g (isAtExpression >>= f) (isAtExpression >>= f') :=
  look (fun c d moves => ⟨_, rfl, by rw [Parser.isAtExpression, moves.front.kind]⟩) hf

theorem isAtKeywordArgument {f : Bool → Parse α} {f' : Bool → Parse β}
    (hf : ∀ b, Tracks m settled K strict budget g (f b) (f' b)) :
    Tracks m settled K strict budget g (isAtKeywordArgument >>= f)
      (isAtKeywordArgument >>= f') := by
  refine look (fun c d moves => ?_) hf
  unfold Parser.isAtKeywordArgument Parser.peek Parser.peekSecond
  dsimp only [Bind.bind, StateT.bind, Except.bind]
  rw [moves.front.kind, moves.second]
  generalize c.front.kind = k
  generalize c.rest.head?.map Token.kind = k'
  split
  · exact ⟨true, rfl, rfl⟩
  · exact ⟨false, rfl, rfl⟩

theorem peek {f : Kind → Parse α} {f' : Kind → Parse β}
    (hf : ∀ k, K k → Tracks m settled (· = k) strict budget g (f k) (f' k)) :
    Tracks m settled K strict budget g (peek >>= f) (peek >>= f') := by
  intro c d moves ended ahead
  have second : (Parser.peek >>= f') d = f' c.front.kind d := by rw [← moves.front.kind]; rfl
  rw [second]
  exact hf c.front.kind ahead moves ended rfl

theorem here {f : Position → Parse α} {f' : Position → Parse β}
    (hf : ∀ p, Tracks m settled K strict budget g (f p) (f' (m.position p))) :
    Tracks m settled K strict budget g (here >>= f) (here >>= f') := by
  intro c d moves ended ahead
  have second : (Parser.here >>= f') d = f' (m.position c.front.pos) d := by
    rw [← moves.front.pos]
    rfl
  rw [second]
  exact hf c.front.pos moves ended ahead

theorem lastLine {f : Nat → Parse α} {f' : Nat → Parse β} (known : settled)
    (hf : ∀ l, Tracks m settled K strict budget g (f l) (f' (m.line l))) :
    Tracks m settled K strict budget g (lastLine >>= f) (lastLine >>= f') := by
  intro c d moves ended ahead
  have second : (Parser.lastLine >>= f') d = f' (m.line c.lastLine) d := by
    rw [← moves.lastLine known]
    rfl
  rw [second]
  exact hf c.lastLine moves ended ahead

/-! ### Passing tokens -/

theorem advance {k : Kind} (other : k ≠ .mark .endOfFile) :
    Tracks m settled (· = k) true budget id advance advance := by
  rintro c d moves ended rfl
  refine .inl ⟨(), c.next, d.next, rfl, rfl, ?_, ended.reaches_next other⟩
  exact (moves.next ended other).unsettled .inl

/-- The end mark is not passed, on either side. -/
theorem advanceAny : Tracks m settled K false budget id Parser.advance Parser.advance := by
  intro c d moves ended _
  by_cases last : c.front.kind = .mark .endOfFile
  · have still {e : Cursor} (last : e.front.kind = .mark .endOfFile) : e.next = e := by
      unfold Cursor.next
      split
      · rfl
      · rw [if_pos (Kind.isMark_iff.2 last)]
    refine .inl ⟨(), c.next, d.next, rfl, rfl, ?_, ?_⟩
    · rwa [still last, still (moves.front.kind.trans last)]
    · rw [still last]
      exact .refl c
  · exact (advance last).lax moves ended rfl

theorem accept {mark : Mark} [mark.Passable] {x x' : Parse α} {y y' : Parse β}
    (yes : Tracks m settled Whatever false (budget - 20) g x y)
    (no : Tracks m settled K strict budget g x' y') :
    Tracks m settled K strict budget g (do if ← accept mark then x else x')
      (do if ← accept mark then y else y') := by
  have passing : Tracks m settled (· = .mark mark) strict budget g (do Parser.advance; x)
      (do Parser.advance; y) :=
    .pass (.advance fun last => Mark.Passable.other (Kind.mark.inj last)) fun _ => yes
  intro c d moves ended ahead
  cases found : c.front.kind.isMark mark with
  | true =>
    rw [accept_found found, accept_found (moves.front.kind ▸ found)]
    exact passing moves ended (Kind.isMark_iff.1 found)
  | false =>
    rw [accept_missing found, accept_missing (moves.front.kind ▸ found)]
    exact no moves ended ahead

theorem accepts {mark : Mark} [mark.Passable] :
    Tracks m settled K false budget id (Parser.accept mark) (Parser.accept mark) := by
  have both : Tracks m settled K false budget id
      (do if ← Parser.accept mark then return true else return false)
      (do if ← Parser.accept mark then return true else return false) :=
    .accept (.pure rfl) (.pure rfl)
  have same : (do if ← Parser.accept mark then return true else return false) =
      Parser.accept mark := by
    funext c
    cases found : c.front.kind.isMark mark with
    | true =>
      rw [accept_found found, Parser.accept, if_pos found]
      rfl
    | false =>
      rw [accept_missing found, Parser.accept, if_neg (Bool.eq_false_iff.1 found)]
      rfl
  rwa [same] at both

theorem expect {mark : Mark} [mark.Passable] {place : Place} :
    Tracks m settled K true budget id (expect mark place) (expect mark place) := by
  intro c d moves ended ahead
  unfold Parser.expect
  rw [moves.front.kind]
  split
  · next found =>
    have unended : c.front.kind ≠ .mark .endOfFile := by
      rw [Kind.isMark_iff.1 found]
      exact fun same => Mark.Passable.other (Kind.mark.inj same)
    refine .inl ⟨(), c.next, d.next, rfl, rfl, ?_, ended.reaches_next unended⟩
    exact (moves.next ended unended).unsettled .inl
  · exact .inr ⟨_, rfl, by rw [moves.front.pos], fun _ => nofun⟩

theorem identifier : Tracks m settled K true budget id identifier identifier := by
  intro c d moves ended ahead
  unfold Parser.identifier
  rw [moves.front.kind]
  split
  · next name found =>
    have unended : c.front.kind ≠ .mark .endOfFile := by
      rw [found]
      nofun
    refine .inl ⟨name, c.next, d.next, rfl, rfl, ?_, ended.reaches_next unended⟩
    exact (moves.next ended unended).unsettled .inl
  · exact .inr ⟨_, rfl, by rw [moves.front.pos], fun _ => nofun⟩

/-- After a name the last line is settled. -/
theorem settling {f : String → Parse α} {f' : String → Parse β}
    (hf : ∀ name, Tracks m True Whatever false (budget - 20) g (f name) (f' name)) :
    Tracks m settled K strict budget g (Parser.identifier >>= f) (Parser.identifier >>= f') := by
  intro c d moves ended ahead
  change Outcome m settled strict budget g c (Parser.identifier c >>= fun r => f r.1 r.2)
    (Parser.identifier d >>= fun r => f' r.1 r.2)
  unfold Parser.identifier
  rw [moves.front.kind]
  split
  · next name found =>
    have unended : c.front.kind ≠ .mark .endOfFile := by
      rw [found]
      nofun
    have reaches := ended.reaches_next unended
    have moves' : c.next.MovesTo m True d.next :=
      (moves.next ended unended).unsettled fun _ => .inr (by rw [found]; rfl)
    have rest := hf name moves' (ended.of_reaches reaches) trivial
    have enough : budget ≤ budget - 20 + if true then 20 else 0 :=
      Nat.le_add_of_sub_le (Nat.le_refl _)
    exact (rest.after reaches enough).imp (fun _ => trivial) (fun _ => rfl) (Nat.le_refl budget)
  · exact .inr ⟨_, rfl, by rw [moves.front.pos]; rfl, fun _ => nofun⟩

theorem following {mark : Mark} [mark.Passable] {x : Parse α} {y : Parse β}
    (hx : Tracks m settled Whatever strict' (budget - 20) g x y) :
    Tracks m settled K false budget (Option.map g) (following mark x) (following mark y) := by
  unfold Parser.following
  simp only [map_eq_pure_bind]
  exact .accept (.bind hx fun a => .pure rfl) (.pure rfl)

/-- What goes on after a separator, if one is ahead. -/
theorem separated {ε ζ : Type} {k : ε → ζ} {mark : Mark} [mark.Passable]
    {x : Parse γ} {y : Parse δ} {more : Parse ε} {more' : Parse ζ}
    {f : γ → ε → α} {f' : δ → ζ → β} {none : α} {none' : β}
    (hx : Tracks m settled Whatever strict (budget - 20) h x y)
    (hmore : Tracks m settled Whatever strict' (budget - 20) k more more')
    (same : ∀ a b, f' (h a) (k b) = g (f a b)) (same' : none' = g none) :
    Tracks m settled K false budget g
      (do
        if ← Parser.accept mark then
          let a ← x
          return f a (← more)
        else return none)
      (do
        if ← Parser.accept mark then
          let a ← y
          return f' a (← more')
        else return none') :=
  .accept (.bind hx fun a => .bind hmore fun b => .pure (same a b)) (.pure same')

theorem peekSecond {f : Option Kind → Parse α} {f' : Option Kind → Parse β}
    (hf : ∀ k, Tracks m settled K strict budget g (f k) (f' k)) :
    Tracks m settled K strict budget g (peekSecond >>= f) (peekSecond >>= f') :=
  look (fun c d moves => ⟨_, rfl, by rw [Parser.peekSecond, moves.second]⟩) hf

theorem compareOp? {f : Option CompareOp → Parse α} {f' : Option CompareOp → Parse β}
    (found : ∀ op, Tracks m settled Whatever false (budget - 20) g (f (some op)) (f' (some op)))
    (none : Tracks m settled Whatever strict budget g (f none) (f' none)) :
    Tracks m settled Whatever strict budget g (compareOp? >>= f) (compareOp? >>= f') := by
  have one {k : Kind} (op : CompareOp) (other : k ≠ .mark .endOfFile) :
      Tracks m settled (· = k) strict budget g (do Parser.advance; f (some op))
        (do Parser.advance; f' (some op)) :=
    .pass (.advance other) fun _ => found op
  unfold Parser.compareOp?
  rw [bind_assoc, bind_assoc]
  refine .peek fun k _ => ?_
  split
  case h_1 | h_2 | h_3 | h_4 | h_5 | h_6 | h_7 =>
    simp only [bind_assoc, pure_bind]
    exact one _ nofun
  case h_8 =>
    simp only [bind_assoc]
    refine .peekSecond fun k' => ?_
    split
    · simp only [bind_assoc, pure_bind]
      refine .pass (.advance nofun) fun _ => ?_
      exact .bind .advanceAny fun _ => found _
    · simp only [pure_bind]
      exact none.anyhow
  case h_9 =>
    simp only [bind_assoc, pure_bind]
    refine .pass (.advance nofun) fun _ => ?_
    exact .bind (.accepts) fun _ => found _
  case h_10 =>
    simp only [pure_bind]
    exact none.anyhow

end Tracks

end Parser

end Footprint
