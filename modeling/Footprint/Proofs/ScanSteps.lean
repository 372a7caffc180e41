import Footprint.Proofs.Scanners

set_option autoImplicit false

/-!
The scan of a text as a sequence of steps. A stage is all that the scan knows: the columns of the
open blocks, where in a line it stands, and the glyphs ahead. A step gives some tokens and leads to
the next stage; every scan is a sequence of steps up to a stage at which the scan stops, with the
tokens at the end of the text or with an error.
-/

namespace Footprint.Token

/-! ### Equations of the scan -/

section

variable {finish : Position} {columns : List Nat} {column depth : Nat} {isOpen : Bool}
  {g : Glyph} {gs rest : List Glyph}

theorem scanLine_nil (h : margin 0 gs = (column, [])) :
    scanLine finish columns gs = ending finish columns 0 false := by
  rw [scanLine]
  split
  · rfl
  · next _ _ _ h' => simp [h] at h'

theorem scanLine_cons (h : margin 0 gs = (column, g :: rest)) :
    scanLine finish columns gs =
      if g.char = '\n' ∨ g.char = '\r' then scanLine finish columns rest
      else if g.char = '#' then scanLine finish columns (afterComment rest)
      else do
        let (tokens, columns) ← indentation columns column g.pos
        let others ← scanRest finish columns 0 (!tokens.isEmpty) (g :: rest)
        return tokens ++ others := by
  rw [scanLine]
  split
  · next _ h' => simp [h] at h'
  · next _ _ _ h' =>
    rw [h] at h'
    cases h'
    rfl

theorem scanRest_nil (h : afterBlanks false gs = []) :
    scanRest finish columns depth isOpen gs = ending finish columns depth isOpen := by
  rw [scanRest]
  split
  · rfl
  · next _ _ h' => simp [h] at h'

/-- The token that `read` has given at a glyph. -/
def tokenAt (finish : Position) (g : Glyph) (r : Read) : Token :=
  ⟨r.kind, g.pos, max (Glyph.here finish r.rest).line g.pos.line⟩

theorem scanRest_cons (h : afterBlanks false gs = g :: rest) :
    scanRest finish columns depth isOpen gs =
      if g.char = '\n' then
        if 0 < depth then scanRest finish columns depth isOpen rest
        else do
          let others ← scanLine finish columns rest
          return if isOpen then ⟨.mark .newline, g.pos, (g.pos.after '\n').line⟩ :: others
            else others
      else do
        let r ← read finish depth g rest
        let others ← scanRest finish columns r.depth true r.rest
        return tokenAt finish g r :: others := by
  rw [scanRest]
  split
  · next h' => simp [h] at h'
  · next _ _ h' =>
    rw [h] at h'
    cases h'
    split
    · rfl
    · split
      · next hr =>
        rw [hr]
        rfl
      · next hr =>
        rw [hr]
        rfl

theorem suffix_of_margin {r : Nat × List Glyph} (h : margin 0 gs = r) : r.2 <:+ gs :=
  h ▸ margin_suffix 0 gs

theorem suffix_of_blanks (h : afterBlanks false gs = rest) : rest <:+ gs :=
  h ▸ afterBlanks_suffix false gs

end

/-! ### Layout -/

theorem closedBy_eq (column : Nat) (columns : List Nat) :
    closedBy column columns =
      (columns.takeWhile (column < ·), columns.dropWhile (column < ·)) := by
  induction columns with
  | nil => rfl
  | cons c cs ih =>
    unfold closedBy
    by_cases deeper : column < c
    · simp [deeper, ih]
    · simp [deeper]

/-- The blocks that are open after the indentation of a line, with its layout. -/
theorem indentation_eq_ok {columns columns' : List Nat} {column : Nat} {p : Position}
    {layout : List Token} (h : indentation columns column p = .ok (layout, columns')) :
    columns'.headD 0 = column ∧
      (columns.headD 0 < column ∧ columns' = column :: columns ∧
          layout = [⟨.mark .indent, p, p.line⟩] ∨
        ∃ ended, columns = ended ++ columns' ∧
          layout = ended.map fun _ => ⟨.mark .dedent, p, p.line⟩) := by
  unfold indentation at h
  split at h
  · next deeper =>
    cases h
    exact ⟨rfl, .inl ⟨deeper, rfl, rfl⟩⟩
  · rw [closedBy_eq] at h
    dsimp only at h
    split at h
    · next same =>
      cases h
      exact ⟨same, .inr ⟨_, List.takeWhile_append_dropWhile.symm, rfl⟩⟩
    · cases h

/-- The layout of a line stands where its text begins. -/
theorem indentation_layout {columns columns' : List Nat} {column : Nat} {p : Position}
    {layout : List Token} (h : indentation columns column p = .ok (layout, columns')) :
    ∀ t ∈ layout, ∃ m, t = ⟨.mark m, p, p.line⟩ ∧ m.isLayout = true ∧ m ≠ .newline := by
  intro t ht
  rcases (indentation_eq_ok h).2 with ⟨-, -, rfl⟩ | ⟨ended, -, rfl⟩
  · exact ⟨.indent, List.mem_singleton.1 ht, rfl, nofun⟩
  · obtain ⟨_, -, rfl⟩ := List.mem_map.1 ht
    exact ⟨.dedent, rfl, rfl, nofun⟩

theorem eq_of_indentation_error {columns : List Nat} {column : Nat} {p : Position} {e : Error}
    (h : indentation columns column p = .error e) : e = ⟨.unalignedUnindent, p⟩ := by
  unfold indentation at h
  split at h
  · cases h
  · dsimp only at h
    split at h
    · cases h
    · cases h
      rfl

/-! ### Stages -/

/-- Where in a line the scan stands: at its beginning, with no bracket open, or within a line, with
so many brackets open; `isOpen` says that the logical line has a token. -/
inductive Spot where
  | lineStart
  | within (depth : Nat) (isOpen : Bool)

structure Stage where
  columns : List Nat
  spot : Spot
  ahead : List Glyph

namespace Stage

/-- The tokens from a stage on. -/
def scan (finish : Position) (s : Stage) : Except Error (List Token) :=
  match s.spot with
  | .lineStart => scanLine finish s.columns s.ahead
  | .within depth isOpen => scanRest finish s.columns depth isOpen s.ahead

/-- The stage at which the scan of a text begins, of which the first character stands at `p`. -/
def start (p : Position) (cs : List Char) : Stage := ⟨[], .lineStart, Glyph.ofChars p cs⟩

/-- How many brackets are open. -/
def depth (s : Stage) : Nat :=
  match s.spot with
  | .lineStart => 0
  | .within depth _ => depth

/-- The logical line at hand has a token. -/
def isOpen (s : Stage) : Bool :=
  match s.spot with
  | .lineStart => false
  | .within _ isOpen => isOpen

end Stage

/-- The character begins the text of a line: it neither ends the line nor begins a comment. -/
def BeginsText (c : Char) : Prop := ¬ (c = '\n' ∨ c = '\r') ∧ c ≠ '#'

variable {finish : Position}

/-- One step of the scan, with the tokens that it gives. -/
inductive Step (finish : Position) : Stage → List Token → Stage → Prop
  | blank {columns : List Nat} {column : Nat} {g : Glyph} {gs rest : List Glyph} :
      margin 0 gs = (column, g :: rest) → g.char = '\n' ∨ g.char = '\r' →
      Step finish ⟨columns, .lineStart, gs⟩ [] ⟨columns, .lineStart, rest⟩
  | comment {columns : List Nat} {column : Nat} {g : Glyph} {gs rest : List Glyph} :
      margin 0 gs = (column, g :: rest) → g.char = '#' →
      Step finish ⟨columns, .lineStart, gs⟩ [] ⟨columns, .lineStart, afterComment rest⟩
  | begins {columns columns' : List Nat} {column : Nat} {g : Glyph} {gs rest : List Glyph}
      {layout : List Token} : margin 0 gs = (column, g :: rest) → BeginsText g.char →
      indentation columns column g.pos = .ok (layout, columns') →
      Step finish ⟨columns, .lineStart, gs⟩ layout
        ⟨columns', .within 0 (!layout.isEmpty), g :: rest⟩
  | join {columns : List Nat} {depth : Nat} {isOpen : Bool} {g : Glyph} {gs rest : List Glyph} :
      afterBlanks false gs = g :: rest → g.char = '\n' → 0 < depth →
      Step finish ⟨columns, .within depth isOpen, gs⟩ [] ⟨columns, .within depth isOpen, rest⟩
  | ends {columns : List Nat} {isOpen : Bool} {g : Glyph} {gs rest : List Glyph} :
      afterBlanks false gs = g :: rest → g.char = '\n' →
      Step finish ⟨columns, .within 0 isOpen, gs⟩
        (if isOpen then [⟨.mark .newline, g.pos, (g.pos.after '\n').line⟩] else [])
        ⟨columns, .lineStart, rest⟩
  | token {columns : List Nat} {depth : Nat} {isOpen : Bool} {g : Glyph} {gs rest : List Glyph}
      {r : Read} : afterBlanks false gs = g :: rest → g.char ≠ '\n' →
      read finish depth g rest = .ok r →
      Step finish ⟨columns, .within depth isOpen, gs⟩ [tokenAt finish g r]
        ⟨columns, .within r.depth true, r.rest⟩

/-- The stage is the last one: the text ends there, or something cannot be read. -/
inductive Stops (finish : Position) : Stage → Except Error (List Token) → Prop
  | afterLine {columns : List Nat} {column : Nat} {gs : List Glyph} : margin 0 gs = (column, []) →
      Stops finish ⟨columns, .lineStart, gs⟩ (ending finish columns 0 false)
  | inLine {columns : List Nat} {depth : Nat} {isOpen : Bool} {gs : List Glyph} :
      afterBlanks false gs = [] →
      Stops finish ⟨columns, .within depth isOpen, gs⟩ (ending finish columns depth isOpen)
  | unaligned {columns : List Nat} {column : Nat} {g : Glyph} {gs rest : List Glyph} {e : Error} :
      margin 0 gs = (column, g :: rest) → BeginsText g.char →
      indentation columns column g.pos = .error e →
      Stops finish ⟨columns, .lineStart, gs⟩ (.error e)
  | unread {columns : List Nat} {depth : Nat} {isOpen : Bool} {g : Glyph} {gs rest : List Glyph}
      {e : Error} : afterBlanks false gs = g :: rest → g.char ≠ '\n' →
      read finish depth g rest = .error e →
      Stops finish ⟨columns, .within depth isOpen, gs⟩ (.error e)

/-- Steps lead from one stage to another and give the tokens. -/
inductive Leads (finish : Position) (s : Stage) : List Token → Stage → Prop
  | refl : Leads finish s [] s
  | snoc {s' s'' : Stage} {ts us : List Token} : Leads finish s ts s' → Step finish s' us s'' →
      Leads finish s (ts ++ us) s''

namespace Leads

variable {s s' s'' : Stage} {ts us : List Token}

theorem single (h : Step finish s ts s') : Leads finish s ts s' := .snoc .refl h

theorem trans (h : Leads finish s ts s') (h' : Leads finish s' us s'') :
    Leads finish s (ts ++ us) s'' := by
  induction h' with
  | refl => rwa [List.append_nil]
  | snoc _ step ih =>
    rw [← List.append_assoc]
    exact ih.snoc step

end Leads

/-! ### Steps and the scan -/

theorem Step.scan_eq {s s' : Stage} {ts : List Token} (h : Step finish s ts s') :
    s.scan finish = (s'.scan finish).map (ts ++ ·) := by
  have none (r : Except Error (List Token)) : r = r.map ([] ++ ·) := by cases r <;> rfl
  cases h with
  | blank blank feed => exact (scanLine_cons blank).trans ((if_pos feed).trans (none _))
  | comment blank hash =>
    have other : ¬ ('#' = '\n' ∨ '#' = '\r') := by decide
    rw [← hash] at other
    exact (scanLine_cons blank).trans ((if_neg other).trans ((if_pos hash).trans (none _)))
  | begins blank text indented =>
    refine (scanLine_cons blank).trans ((if_neg text.1).trans ((if_neg text.2).trans ?_))
    rw [indented]
    rfl
  | join blank feed inside =>
    exact (scanRest_cons blank).trans ((if_pos feed).trans ((if_pos inside).trans (none _)))
  | @ends columns isOpen g gs rest blank feed =>
    refine (scanRest_cons blank).trans ((if_pos feed).trans ((if_neg (Nat.lt_irrefl 0)).trans ?_))
    cases isOpen with
    | true => rfl
    | false => exact (bind_pure _).trans (none _)
  | token blank other found =>
    refine (scanRest_cons blank).trans ((if_neg other).trans ?_)
    rw [found]
    rfl

theorem Leads.scan_eq {s s' : Stage} {ts : List Token} (h : Leads finish s ts s') :
    s.scan finish = (s'.scan finish).map (ts ++ ·) := by
  induction h with
  | refl =>
    cases s.scan finish with
    | error e => rfl
    | ok ts => rfl
  | @snoc mid last ts us _ step ih =>
    rw [ih, step.scan_eq]
    cases last.scan finish with
    | error e => rfl
    | ok vs => exact congrArg Except.ok (List.append_assoc ts us vs).symm

theorem Stops.scan_eq {s : Stage} {r : Except Error (List Token)} (h : Stops finish s r) :
    s.scan finish = r := by
  cases h with
  | afterLine blank => exact scanLine_nil blank
  | inLine blank => exact scanRest_nil blank
  | unaligned blank text failed =>
    refine (scanLine_cons blank).trans ((if_neg text.1).trans ((if_neg text.2).trans ?_))
    rw [failed]
    rfl
  | unread blank other failed =>
    refine (scanRest_cons blank).trans ((if_neg other).trans ?_)
    rw [failed]
    rfl

/-- From every stage on, steps lead to one at which the scan stops. -/
theorem exists_stops (finish : Position) (s : Stage) :
    ∃ ts s' r, Leads finish s ts s' ∧ Stops finish s' r := by
  have longer {s s' : Stage} {ts : List Token} (step : Step finish s ts s')
      (ih : ∃ us s'' r, Leads finish s' us s'' ∧ Stops finish s'' r) :
      ∃ us s'' r, Leads finish s us s'' ∧ Stops finish s'' r := by
    obtain ⟨us, s'', r, leads, stops⟩ := ih
    exact ⟨ts ++ us, s'', r, (Leads.single step).trans leads, stops⟩
  have both : (∀ columns gs, ∃ ts s' r, Leads finish ⟨columns, .lineStart, gs⟩ ts s' ∧
        Stops finish s' r) ∧
      ∀ columns depth isOpen gs, ∃ ts s' r,
        Leads finish ⟨columns, .within depth isOpen, gs⟩ ts s' ∧ Stops finish s' r := by
    apply scanLine.mutual_induct finish
    case case1 => exact fun columns gs column blank => ⟨[], _, _, .refl, .afterLine blank⟩
    case case2 => exact fun columns gs column g rest blank feed ih => longer (.blank blank feed) ih
    case case3 =>
      exact fun columns gs column g rest blank _ hash ih => longer (.comment blank hash) ih
    case case4 =>
      intro columns gs column g rest blank other text ih
      cases indented : indentation columns column g.pos with
      | error e => exact ⟨[], _, _, .refl, .unaligned blank ⟨other, text⟩ indented⟩
      | ok r => exact longer (.begins blank ⟨other, text⟩ indented) (ih r.1 r.2)
    case case5 => exact fun columns depth isOpen gs blank => ⟨[], _, _, .refl, .inLine blank⟩
    case case6 =>
      exact fun columns depth isOpen gs g rest blank feed inside ih =>
        longer (.join blank feed inside) ih
    case case7 =>
      intro columns depth isOpen gs g rest blank feed outside ih
      obtain rfl : depth = 0 := Nat.eq_zero_of_not_pos outside
      exact longer (.ends blank feed) ih
    case case8 =>
      exact fun columns depth isOpen gs g rest blank other e failed =>
        ⟨[], _, _, .refl, .unread blank other failed⟩
    case case9 =>
      exact fun columns depth isOpen gs g rest blank other r found ih =>
        longer (.token blank other found) ih
  obtain ⟨columns, spot, gs⟩ := s
  cases spot with
  | lineStart => exact both.1 columns gs
  | within depth isOpen => exact both.2 columns depth isOpen gs

/-- The tokens of a scan are those of its steps and those of the stage at which it stops. -/
theorem scan_eq_ok {s : Stage} {ts : List Token} (h : s.scan finish = .ok ts) :
    ∃ us s' vs, Leads finish s us s' ∧ Stops finish s' (.ok vs) ∧ ts = us ++ vs := by
  obtain ⟨us, s', r, leads, stops⟩ := exists_stops finish s
  rw [leads.scan_eq, stops.scan_eq] at h
  cases r with
  | error e => cases h
  | ok vs =>
    cases h
    exact ⟨us, s', vs, leads, stops, rfl⟩

/-- What is so where the scan stops with tokens, and is carried back over each step, is so of the
tokens from every stage on. -/
@[elab_as_elim]
theorem scan_induction {P : Stage → List Token → Prop}
    (stops : ∀ ⦃s vs⦄, Stops finish s (.ok vs) → P s vs)
    (step : ∀ ⦃s us s' vs⦄, Step finish s us s' → P s' vs → P s (us ++ vs))
    {s : Stage} {ts : List Token} (h : s.scan finish = .ok ts) : P s ts := by
  obtain ⟨us, s', vs, leads, last, rfl⟩ := scan_eq_ok h
  have behind := stops last
  clear h last
  induction leads generalizing vs with
  | refl => exact behind
  | snoc _ next ih =>
    rw [List.append_assoc]
    exact ih _ (step next behind)

/-- The error of a scan is that of the stage at which it stops. -/
theorem scan_eq_error {s : Stage} {e : Error} :
    s.scan finish = .error e ↔ ∃ us s', Leads finish s us s' ∧ Stops finish s' (.error e) := by
  constructor
  · intro h
    obtain ⟨us, s', r, leads, stops⟩ := exists_stops finish s
    rw [leads.scan_eq, stops.scan_eq] at h
    cases r with
    | ok vs => cases h
    | error e' =>
      cases h
      exact ⟨us, s', leads, stops⟩
  · rintro ⟨us, s', leads, stops⟩
    rw [leads.scan_eq, stops.scan_eq]
    rfl

/-! ### Where the scan stops -/

section

variable {s : Stage} {us : List Token}

/-- Where the scan stops with tokens, no bracket is open; they end the line and close all blocks. -/
theorem Stops.eq_of_ok (h : Stops finish s (.ok us)) : s.depth = 0 ∧
    us = (if s.isOpen then [⟨.mark .newline, finish, finish.line⟩] else []) ++
      s.columns.map (fun _ => ⟨.mark .dedent, finish, finish.line⟩) ++
      [⟨.mark .endOfFile, finish, finish.line⟩] := by
  have ended : ending finish s.columns s.depth s.isOpen = .ok us := by
    generalize result : Except.ok us = r at h
    cases h with
    | afterLine | inLine => rfl
    | unaligned | unread => cases result
  unfold ending at ended
  split at ended
  · cases ended
  · next outside =>
    cases ended
    exact ⟨Nat.eq_zero_of_not_pos outside, rfl⟩

theorem Stops.eq_mark_of_mem {t : Token} (h : Stops finish s (.ok us)) (ht : t ∈ us) :
    ∃ m, m.isLayout = true ∧ m ≠ .indent ∧ t = ⟨.mark m, finish, finish.line⟩ := by
  obtain ⟨-, rfl⟩ := h.eq_of_ok
  simp only [List.mem_append, List.mem_map, List.mem_singleton] at ht
  rcases ht with (ht | ⟨_, -, rfl⟩) | rfl
  · split at ht
    · exact ⟨.newline, rfl, nofun, List.mem_singleton.1 ht⟩
    · cases ht
  · exact ⟨.dedent, rfl, nofun, rfl⟩
  · exact ⟨.endOfFile, rfl, nofun, rfl⟩

/-- Where the scan stops with an error, the text ends within brackets, or the line at hand is not
indented as any block is, or no token can be read. -/
theorem Stops.cases_of_error {e : Error} (h : Stops finish s (.error e)) :
    e = ⟨.endInsideBrackets, finish⟩ ∨
    (∃ column g rest, s.spot = .lineStart ∧ margin 0 s.ahead = (column, g :: rest) ∧
      BeginsText g.char ∧ indentation s.columns column g.pos = .error e) ∨
    ∃ g rest, afterBlanks false s.ahead = g :: rest ∧ g.char ≠ '\n' ∧
      read finish s.depth g rest = .error e := by
  have ended {columns : List Nat} {depth : Nat} {isOpen : Bool}
      (h : ending finish columns depth isOpen = .error e) : e = ⟨.endInsideBrackets, finish⟩ := by
    unfold ending at h
    split at h
    · cases h
      rfl
    · cases h
  generalize result : Except.error e = r at h
  cases h with
  | afterLine | inLine => exact .inl (ended result.symm)
  | unaligned blank text failed =>
    cases result
    exact .inr (.inl ⟨_, _, _, rfl, blank, text, failed⟩)
  | unread blank other failed =>
    cases result
    exact .inr (.inr ⟨_, _, blank, other, failed⟩)

end

/-! ### What cannot be read -/

theorem stringBody_eq_error {quote : Char} {triple : Bool} {start : Position} {acc : List Char}
    {gs : List Glyph} {e : Error} (h : stringBody quote triple start finish acc gs = .error e) :
    (e.pos = start ∨ e.pos = finish) ∧ e.fault ≠ .unalignedUnindent := by
  fun_induction stringBody quote triple start finish acc gs with
  | case1 | case6 =>
    cases h
    exact ⟨.inl rfl, by simp⟩
  | case7 =>
    cases h
    exact ⟨.inr rfl, by simp⟩
  | case2 | case5 => cases h
  | case3 _ _ _ _ _ _ _ _ ih | case4 _ _ _ _ _ _ ih | case8 _ _ _ _ _ _ _ ih
  | case9 _ _ _ _ _ _ ih => exact ih h

theorem stringLiteral_eq_error {quote : Char} {start : Position} {gs : List Glyph} {e : Error}
    (h : stringLiteral quote start finish gs = .error e) :
    (e.pos = start ∨ e.pos = finish) ∧ e.fault ≠ .unalignedUnindent := by
  unfold stringLiteral at h
  split at h
  · split at h
    · exact stringBody_eq_error h
    · exact stringBody_eq_error h
  · exact stringBody_eq_error h

/-- What cannot be read as a token is reported where it begins or at the end of the text. -/
theorem read_eq_error {depth : Nat} {g : Glyph} {gs : List Glyph} {e : Error}
    (h : read finish depth g gs = .error e) :
    (e.pos = g.pos ∨ e.pos = finish) ∧ e.fault ≠ .unalignedUnindent := by
  unfold read at h
  split at h
  · cases literal : stringLiteral g.char g.pos finish gs with
    | ok r =>
      rw [literal] at h
      cases h
    | error e' =>
      rw [literal] at h
      cases h
      exact stringLiteral_eq_error literal
  · split at h
    · unfold numberLiteral at h
      dsimp only at h
      split at h
      · split at h
        · cases h
        · cases h
          exact ⟨.inl rfl, by simp⟩
      · cases h
    · split at h
      · cases h
      · split at h
        · cases h
          exact ⟨.inl rfl, by simp⟩
        · split at h
          · cases h
            exact ⟨.inl rfl, by simp⟩
          · cases h

/-! ### What is ahead -/

theorem Step.suffix {s s' : Stage} {ts : List Token} (h : Step finish s ts s') :
    s'.ahead <:+ s.ahead := by
  cases h with
  | @blank _ _ g _ rest blank => exact (List.suffix_cons g rest).trans (suffix_of_margin blank)
  | @comment _ _ g _ rest blank =>
    refine ((afterComment_suffix rest).trans (List.suffix_cons g rest)).trans ?_
    exact suffix_of_margin blank
  | begins blank => exact suffix_of_margin blank
  | @join _ _ _ g _ rest blank | @ends _ _ g _ rest blank =>
    exact (List.suffix_cons g rest).trans (suffix_of_blanks blank)
  | token blank other found => exact (closes_read other found).suffix.trans (suffix_of_blanks blank)

theorem Leads.suffix {s s' : Stage} {ts : List Token} (h : Leads finish s ts s') :
    s'.ahead <:+ s.ahead := by
  induction h with
  | refl => exact List.suffix_refl _
  | snoc _ step ih => exact step.suffix.trans ih

end Footprint.Token

namespace Footprint

/-- The scan of a text is that from its first stage on. -/
theorem tokenize_eq (source : String) :
    tokenize source = (Token.Stage.start .start source.toList).scan
      (Position.start.afterAll source.toList) := rfl

end Footprint
