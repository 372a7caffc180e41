import Footprint.Proofs.Lookahead
import Footprint.Proofs.ScanSteps

set_option autoImplicit false

/-!
A text that stands one line further down. The scan takes the same steps; its tokens, and what goes
wrong, stand one line further down too.
-/

namespace Footprint

def Position.down (p : Position) : Position := ⟨p.line + 1, p.column⟩

theorem Position.after_down (p : Position) (c : Char) : p.down.after c = (p.after c).down := by
  unfold after
  split <;> rfl

theorem Position.afterAll_down (p : Position) (cs : List Char) :
    p.down.afterAll cs = (p.afterAll cs).down := by
  induction cs generalizing p with
  | nil => rfl
  | cons c cs ih =>
    change (p.down.after c).afterAll cs = ((p.after c).afterAll cs).down
    rw [after_down, ih]

def Token.down (t : Token) : Token := ⟨t.kind, t.pos.down, t.endLine + 1⟩

namespace Token

def Error.down (e : Error) : Error := ⟨e.fault, e.pos.down⟩

def Glyph.down (g : Glyph) : Glyph := ⟨g.char, g.pos.down⟩

def Stage.down (s : Stage) : Stage := ⟨s.columns, s.spot, s.ahead.map Glyph.down⟩

@[simp] theorem Glyph.char_down (g : Glyph) : g.down.char = g.char := rfl

theorem Glyph.ofChars_down (p : Position) (cs : List Char) :
    ofChars p.down cs = (ofChars p cs).map down := by
  induction cs generalizing p with
  | nil => rfl
  | cons c cs ih =>
    rw [ofChars, ofChars, Position.after_down, ih]
    rfl

/-! ### Readers that look at characters alone -/

section

variable {f : Glyph → Glyph} (kept : ∀ g, (f g).char = g.char)

include kept

theorem margin_map (column : Nat) (gs : List Glyph) :
    margin column (gs.map f) = ((margin column gs).1, (margin column gs).2.map f) := by
  induction gs generalizing column with
  | nil => rfl
  | cons g gs ih =>
    rw [List.map_cons, margin, margin, kept]
    split
    · exact ih _
    · split
      · exact ih _
      · split
        · exact ih _
        · rfl

theorem afterComment_map (gs : List Glyph) :
    afterComment (gs.map f) = (afterComment gs).map f := by
  rw [afterComment, List.dropWhile_map, afterComment]
  simp only [Function.comp_def, kept]

theorem afterBlanks_map (gs : List Glyph) :
    afterBlanks false (gs.map f) = (afterBlanks false gs).map f := by
  have skips := Skips.of_afterBlanks rfl gs
  generalize afterBlanks false gs = rest at skips
  refine Skips.afterBlanks_eq ?_
  induction skips with
  | nil => exact .nil
  | blank blank _ ih => exact .blank (by rwa [kept]) ih
  | @comment g gs hash =>
    rw [← afterComment_map kept]
    exact .comment (by rwa [kept])
  | join back feed _ ih => exact .join (by rwa [kept]) (by rwa [kept]) ih
  | joinReturn back ret feed _ ih =>
    exact .joinReturn (by rwa [kept]) (by rwa [kept]) (by rwa [kept]) ih
  | @backslash g gs back first second =>
    refine .backslash (by rwa [kept]) ?_ ?_
    · intro a as same
      obtain ⟨a, as, rfl, rfl, -⟩ := List.map_eq_cons_iff.1 same
      rw [kept]
      exact first a as rfl
    · intro a b bs same
      obtain ⟨a, as, rfl, rfl, behind⟩ := List.map_eq_cons_iff.1 same
      obtain ⟨b, bs, rfl, rfl, -⟩ := List.map_eq_cons_iff.1 behind
      rw [kept, kept]
      exact second a b bs rfl
  | text text => exact .text (by rwa [kept])

theorem digits_map (gs : List Glyph) :
    digits (gs.map f) = ((digits gs).1, (digits gs).2.map f) := by
  induction gs with
  | nil => rfl
  | cons g gs ih =>
    rw [List.map_cons, digits, digits, kept, ih]
    split
    · rfl
    · split <;> rfl

theorem fraction_map (gs : List Glyph) :
    fraction (gs.map f) = ((fraction gs).1, (fraction gs).2.map f) := by
  match gs with
  | [] | [_] => rfl
  | p :: d :: rest =>
    have places := digits_map kept (d :: rest)
    rw [List.map_cons] at places
    simp only [List.map_cons, fraction, kept, places]
    split <;> rfl

theorem power_map (gs : List Glyph) :
    power (gs.map f) = ((power gs).1, (power gs).2.map f) := by
  match gs with
  | [] | [_] => rfl
  | [e, s] =>
    have one := digits_map kept [s]
    simp only [List.map_cons, List.map_nil] at one
    simp only [List.map_cons, List.map_nil, power, kept, one]
    split
    · split <;> rfl
    · rfl
  | e :: s :: d :: rest =>
    have first := digits_map kept (s :: d :: rest)
    have second := digits_map kept (d :: rest)
    simp only [List.map_cons] at first second
    simp only [List.map_cons, power, kept, first, second]
    split
    · split
      · rfl
      · split <;> rfl
    · rfl

theorem word_map (first : Char) (gs : List Glyph) :
    word first (gs.map f) = ((word first gs).1, (word first gs).2.map f) := by
  simp only [word, List.takeWhile_map, List.dropWhile_map, Function.comp_def, kept, List.map_map]

theorem withAssign_map (plain assigned : Symbol) (gs : List Glyph) :
    withAssign plain assigned (gs.map f) =
      ((withAssign plain assigned gs).1, (withAssign plain assigned gs).2.map f) := by
  cases gs with
  | nil => rfl
  | cons g gs =>
    rw [List.map_cons, withAssign, withAssign, kept]
    split <;> rfl

theorem withDouble_map (c : Char) (plain assigned double doubleAssigned : Symbol)
    (gs : List Glyph) :
    withDouble c plain assigned double doubleAssigned (gs.map f) =
      ((withDouble c plain assigned double doubleAssigned gs).1,
        (withDouble c plain assigned double doubleAssigned gs).2.map f) := by
  cases gs with
  | nil => rfl
  | cons g gs =>
    rw [List.map_cons, withDouble, withDouble, kept]
    split
    · exact withAssign_map kept _ _ gs
    · exact withAssign_map kept _ _ (g :: gs)

theorem symbol?_map (c : Char) (gs : List Glyph) :
    symbol? c (gs.map f) = (symbol? c gs).map fun r => (r.1, r.2.map f) := by
  unfold symbol?
  split
  case h_1 | h_5 | h_6 | h_7 | h_8 => exact congrArg some (withAssign_map kept _ _ gs)
  case h_3 | h_4 => exact congrArg some (withDouble_map kept _ _ _ _ _ gs)
  case h_2 =>
    cases gs with
    | nil => rfl
    | cons g gs =>
      rw [List.map_cons]
      dsimp only
      rw [kept]
      split
      · rfl
      · exact congrArg some (withAssign_map kept _ _ (g :: gs))
  case h_9 =>
    cases gs with
    | nil => rfl
    | cons g gs =>
      rw [List.map_cons]
      dsimp only
      rw [kept]
      split <;> rfl
  all_goals rfl

end

/-! ### Readers that look at positions -/

/-- What is given one line further down, with what is given changed by `f`. -/
def moveDown {α β : Type} (f : α → β) (r : Except Error α) : Except Error β :=
  (r.map f).mapError Error.down

variable {finish : Position}

theorem stringBody_down (quote : Char) (triple : Bool) (start finish : Position) (acc : List Char)
    (gs : List Glyph) :
    stringBody quote triple start.down finish.down acc (gs.map Glyph.down) =
      moveDown (fun r => (r.1, r.2.map Glyph.down))
        (stringBody quote triple start finish acc gs) := by
  fun_induction stringBody quote triple start finish acc gs with
  | case1 => rfl
  | case2 acc g closes three a b rest closes' =>
    obtain rfl := three
    exact stringBody_close_triple closes closes'
  | case3 acc g closes three a b rest other ih =>
    obtain rfl := three
    refine (stringBody_quote (g := g.down) closes ?_).trans ih
    rintro _ _ _ ⟨⟩
    exact other
  | case4 acc g closes three gs short ih =>
    obtain rfl := three
    refine (stringBody_quote (g := g.down) closes ?_).trans ih
    intro a b rest same
    obtain ⟨a, as, rfl, -, behind⟩ := List.map_eq_cons_iff.1 same
    obtain ⟨b, bs, rfl, -, -⟩ := List.map_eq_cons_iff.1 behind
    exact absurd rfl (short a b bs)
  | case5 acc g gs closes one =>
    obtain rfl := Bool.eq_false_iff.2 one
    exact stringBody_close closes
  | case6 acc g gs other feed =>
    simp at feed
    obtain ⟨feed, rfl⟩ := feed
    exact stringBody_feed other feed
  | case7 acc g other inLine back =>
    rw [List.map_cons, List.map_nil, stringBody.eq_def]
    dsimp only
    rw [Glyph.char_down, if_neg other, if_neg inLine, if_pos back]
    rfl
  | case8 acc g other inLine escapes e gs ih =>
    exact (stringBody_escape (g := g.down) (e := e.down) other escapes).trans ih
  | case9 acc g gs other inLine plain ih =>
    refine (stringBody_plain (g := g.down) other ?_ plain).trans ih
    rintro rfl feed
    exact inLine (by simpa using feed)

theorem stringLiteral_down (quote : Char) (start finish : Position) (gs : List Glyph) :
    stringLiteral quote start.down finish.down (gs.map Glyph.down) =
      moveDown (fun r => (r.1, r.2.map Glyph.down)) (stringLiteral quote start finish gs) := by
  match gs with
  | [] | [_] => exact stringBody_down ..
  | a :: b :: gs =>
    simp only [List.map_cons, stringLiteral, Glyph.char_down]
    split
    · exact stringBody_down ..
    · exact stringBody_down quote false start finish [] (a :: b :: gs)

theorem numberLiteral_down (first : Char) (start : Position) (gs : List Glyph) :
    numberLiteral first start.down (gs.map Glyph.down) =
      moveDown (fun r => (r.1, r.2.map Glyph.down)) (numberLiteral first start gs) := by
  simp only [numberLiteral, digits_map Glyph.char_down, fraction_map Glyph.char_down,
    power_map Glyph.char_down]
  split
  · split <;> rfl
  · rfl

def Read.down (r : Read) : Read := ⟨r.kind, r.depth, r.rest.map Glyph.down⟩

theorem read_down (finish : Position) (depth : Nat) (g : Glyph) (gs : List Glyph) :
    read finish.down depth g.down (gs.map Glyph.down) =
      moveDown Read.down (read finish depth g gs) := by
  unfold read
  rw [Glyph.char_down]
  split
  · change (stringLiteral _ g.pos.down finish.down _).map _ = _
    rw [stringLiteral_down]
    cases stringLiteral g.char g.pos finish gs <;> rfl
  · split
    · change (numberLiteral _ g.pos.down _).map _ = _
      rw [numberLiteral_down]
      cases numberLiteral g.char g.pos gs <;> rfl
    · split
      · rw [word_map Glyph.char_down]
        rfl
      · rw [symbol?_map Glyph.char_down]
        cases symbol? g.char gs with
        | none => rfl
        | some r =>
          dsimp only [Option.map]
          cases depthAfter? depth r.1 <;> rfl

theorem indentation_down (columns : List Nat) (column : Nat) (p : Position) :
    indentation columns column p.down =
      moveDown (fun r => (r.1.map Token.down, r.2)) (indentation columns column p) := by
  unfold indentation
  split
  · rfl
  · dsimp only
    split
    · simp [moveDown, Except.map, Except.mapError, Token.down, Position.down]
    · rfl

theorem ending_down (finish : Position) (columns : List Nat) (depth : Nat) (isOpen : Bool) :
    ending finish.down columns depth isOpen =
      moveDown (List.map Token.down) (ending finish columns depth isOpen) := by
  unfold ending
  split
  · rfl
  · cases isOpen <;>
      simp [moveDown, Except.map, Except.mapError, Token.down, Position.down]

/-! ### The scan -/

variable {s s' : Stage} {ts : List Token} {gs rest : List Glyph}

theorem margin_down {column : Nat} (blank : margin 0 gs = (column, rest)) :
    margin 0 (gs.map Glyph.down) = (column, rest.map Glyph.down) := by
  rw [margin_map Glyph.char_down, blank]

theorem afterBlanks_down (blank : afterBlanks false gs = rest) :
    afterBlanks false (gs.map Glyph.down) = rest.map Glyph.down := by
  rw [afterBlanks_map Glyph.char_down, blank]

theorem Glyph.here_down (finish : Position) (gs : List Glyph) :
    here finish.down (gs.map down) = (here finish gs).down := by
  cases gs <;> rfl

theorem tokenAt_down (finish : Position) (g : Glyph) (r : Read) :
    tokenAt finish.down g.down r.down = (tokenAt finish g r).down := by
  have line : (Glyph.here finish.down (r.rest.map Glyph.down)).line =
      (Glyph.here finish r.rest).line + 1 := congrArg Position.line (Glyph.here_down finish r.rest)
  unfold tokenAt
  simp only [Token.down, Read.down, line]
  exact congrArg (Token.mk _ _) (Nat.succ_max_succ _ _)

theorem Step.down (h : Step finish s ts s') :
    Step finish.down s.down (ts.map Token.down) s'.down := by
  cases h with
  | blank blank feed => exact .blank (g := _) (margin_down blank) feed
  | @comment columns column g gs rest blank hash =>
    have step : Step finish.down ⟨columns, .lineStart, gs.map Glyph.down⟩ [] _ :=
      .comment (margin_down blank) hash
    rw [afterComment_map Glyph.char_down] at step
    exact step
  | @begins columns columns' column g gs rest layout blank text indented =>
    have lower := indentation_down columns column g.pos
    rw [indented] at lower
    have step : Step finish.down ⟨columns, .lineStart, gs.map Glyph.down⟩ _ _ :=
      .begins (margin_down blank) text lower
    rw [List.isEmpty_map] at step
    exact step
  | join blank feed inside => exact .join (g := _) (afterBlanks_down blank) feed inside
  | @ends columns isOpen g gs rest blank feed =>
    have step : Step finish.down ⟨columns, .within 0 isOpen, gs.map Glyph.down⟩ _ _ :=
      .ends (afterBlanks_down blank) feed
    cases isOpen <;> exact step
  | @token columns depth isOpen g gs rest r blank other found =>
    have lower := read_down finish depth g rest
    rw [found] at lower
    have step : Step finish.down ⟨columns, .within depth isOpen, gs.map Glyph.down⟩ _ _ :=
      .token (afterBlanks_down blank) other lower
    rw [tokenAt_down] at step
    exact step

theorem Leads.down (h : Leads finish s ts s') :
    Leads finish.down s.down (ts.map Token.down) s'.down := by
  induction h with
  | refl => exact .refl
  | snoc _ step ih =>
    rw [List.map_append]
    exact ih.snoc step.down

theorem Stops.down {r : Except Error (List Token)} (h : Stops finish s r) :
    Stops finish.down s.down (moveDown (List.map Token.down) r) := by
  cases h with
  | @afterLine columns column gs blank =>
    rw [← ending_down]
    exact .afterLine (margin_down blank)
  | @inLine columns depth isOpen gs blank =>
    rw [← ending_down]
    exact .inLine (afterBlanks_down blank)
  | @unaligned columns column g gs rest e blank text failed =>
    refine .unaligned (g := g.down) (margin_down blank) text ?_
    have lower := indentation_down columns column g.pos
    rwa [failed] at lower
  | @unread columns depth isOpen g gs rest e blank other failed =>
    refine .unread (g := g.down) (afterBlanks_down blank) other ?_
    have lower := read_down finish depth g rest
    rwa [failed] at lower

/-- A text one line further down has the same tokens one line further down. -/
theorem scan_down (finish : Position) (s : Stage) :
    s.down.scan finish.down = moveDown (List.map Token.down) (s.scan finish) := by
  obtain ⟨ts, s', r, leads, stops⟩ := exists_stops finish s
  rw [leads.down.scan_eq, stops.down.scan_eq, leads.scan_eq, stops.scan_eq]
  cases r with
  | error e => rfl
  | ok us => exact congrArg Except.ok List.map_append.symm

end Token

end Footprint
