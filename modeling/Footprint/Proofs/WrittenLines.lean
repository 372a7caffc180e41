import Footprint.Proofs.Spelling

set_option autoImplicit false

/-!
Lines of tokens written as text and scanned again. A line is indented by four blanks for each block
around it; its tokens are apart by one blank, except around brackets, points and before commas and
colons. The scan gives back the tokens of the lines, with the layout tokens between them.
-/

namespace Footprint.Token

/-! ### Within a line -/

namespace Kind

/-- An operand may end with the token. -/
def endsOperand : Kind → Bool
  | int _ | str _ | name _ | mark (.symbol .closeParen) | mark (.symbol .closeBracket)
  | mark (.keyword .trueKw) | mark (.keyword .falseKw) | mark (.keyword .noneKw) => true
  | _ => false

/-- What comes next is written close to the token. -/
def leads : Kind → Bool
  | mark (.symbol .openParen) | mark (.symbol .openBracket) | mark (.symbol .atSign)
  | mark (.symbol .dot) => true
  | _ => false

/-- No blank is written between the tokens. -/
def clings (before after : Kind) : Bool :=
  match after with
  | mark (.symbol .closeParen) | mark (.symbol .closeBracket) | mark (.symbol .comma)
  | mark (.symbol .colon) => true
  | mark (.symbol .openParen) | mark (.symbol .openBracket) => before.leads || before.endsOperand
  | mark (.symbol .dot) => before.leads || before.endsOperand && !before.isInt
  | mark (.keyword .importKw) => false
  | _ => before.leads

end Kind

/-- The tokens of a line as text. -/
def spell : List Kind → List Char
  | [] => []
  | [k] => k.spelling
  | k :: k' :: ks => k.spelling ++ ((if k.clings k' then [] else [' ']) ++ spell (k' :: ks))

/-- The bracket depth after the tokens. -/
def depthAfterAll? (depth : Nat) (ks : List Kind) : Option Nat :=
  ks.foldlM Kind.depthAfter? depth

section

variable {k k' : Kind} {ks ks' : List Kind} {cs cs' : List Char} {depth depth' depth'' : Nat}

theorem isClosed_of_leads (h : k.leads = true) : k.isClosed = true := by
  unfold Kind.leads at h
  split at h
  case h_5 => cases h
  all_goals rfl

theorem stops_of_separator {c : Char} (h : c ∈ separators) : k.Stops (c :: cs) := by
  refine .inr fun d hd => ?_
  obtain rfl := Option.some.inj hd
  exact .inl h

theorem stops_of_clings (h : k.clings k' = true) : k.Stops (k'.spelling ++ cs) := by
  unfold Kind.clings at h
  split at h
  case h_1 | h_2 | h_3 | h_4 | h_5 | h_6 => exact stops_of_separator (by decide)
  case h_7 =>
    rw [Bool.or_eq_true, Bool.and_eq_true, Bool.not_eq_true'] at h
    rcases h with leads | ⟨-, other⟩
    · exact .inl (isClosed_of_leads leads)
    · refine .inr fun d hd => ?_
      obtain rfl := Option.some.inj hd
      exact .inr (.inl ⟨rfl, other⟩)
  case h_8 => cases h
  case h_9 => exact .inl (isClosed_of_leads h)

theorem depthAfterAll?_append (h : depthAfterAll? depth ks = some depth') :
    depthAfterAll? depth (ks ++ ks') = depthAfterAll? depth' ks' := by
  unfold depthAfterAll? at *
  rw [List.foldlM_append, h]
  rfl

/-- Where the scan is within a line, the text up to what remains holds the tokens. -/
def Scans (depth depth' : Nat) (ks : List Kind) (cs cs' : List Char) : Prop :=
  ∀ (finish : Position) (columns : List Nat) (isOpen : Bool) (gs : List Glyph),
    gs.map Glyph.char = cs → ∃ ts rest, ts.map Token.kind = ks ∧ rest.map Glyph.char = cs' ∧
      scanRest finish columns depth isOpen gs =
        (ts ++ ·) <$> scanRest finish columns depth' (isOpen || !ks.isEmpty) rest

theorem isEmpty_append (ks ks' : List Kind) :
    (ks ++ ks').isEmpty = (ks.isEmpty && ks'.isEmpty) := by
  cases ks <;> rfl

namespace Scans

theorem nil : Scans depth depth [] cs cs := by
  intro finish columns isOpen gs h
  refine ⟨[], gs, rfl, h, ?_⟩
  rw [List.isEmpty_nil, Bool.not_true, Bool.or_false]
  exact (id_map _).symm

theorem trans (first : Scans depth depth' ks cs cs') {ds : List Char}
    (others : Scans depth' depth'' ks' cs' ds) : Scans depth depth'' (ks ++ ks') cs ds := by
  intro finish columns isOpen gs h
  obtain ⟨ts, rest, hts, after, scan⟩ := first finish columns isOpen gs h
  obtain ⟨ts', rest', hts', after', scan'⟩ := others finish columns _ rest after
  refine ⟨ts ++ ts', rest', by rw [List.map_append, hts, hts'], after', ?_⟩
  rw [scan, scan', isEmpty_append, Bool.not_and, Bool.or_assoc, Functor.map_map]
  simp only [List.append_assoc]

/-- The blank before a token is passed over. -/
theorem space : Scans depth depth [] (' ' :: cs) cs := by
  intro finish columns isOpen gs h
  obtain ⟨g, rest, rfl, blank, after⟩ := List.map_eq_cons_iff.1 h
  refine ⟨[], rest, rfl, after, ?_⟩
  have skip : afterBlanks false (g :: rest) = afterBlanks false rest := by
    rw [afterBlanks.eq_def]
    simp [blank]
  rw [List.isEmpty_nil, Bool.not_true, Bool.or_false]
  refine Eq.trans ?_ (id_map _).symm
  cases left : afterBlanks false rest with
  | nil => rw [scanRest_nil left, scanRest_nil (skip.trans left)]
  | cons k others => rw [scanRest_cons left, scanRest_cons (skip.trans left)]

theorem token (writable : k.isWritable = true) (stops : k.Stops cs)
    (deep : k.depthAfter? depth = some depth') : Scans depth depth' [k] (k.spelling ++ cs) cs := by
  intro finish columns isOpen gs h
  obtain ⟨c, part, spelled, solid⟩ := spelling_eq_cons writable
  obtain ⟨g, others, rfl, first, -⟩ := List.map_eq_cons_iff.1 (h.trans (by rw [spelled]; rfl))
  obtain ⟨rest, after, read⟩ := read_spelling finish writable stops deep h
  refine ⟨[tokenAt finish g ⟨k, depth', rest⟩], rest, rfl, after, ?_⟩
  have still : afterBlanks false (g :: others) = g :: others := by
    rw [afterBlanks.eq_def]
    simp_all [blanks]
  have feed : g.char ≠ '\n' := by
    rintro feed
    exact solid (first ▸ feed ▸ by decide)
  rw [scanRest_cons still, if_neg feed, read]
  cases isOpen <;> rfl

end Scans

/-- A written line is scanned up to its end. -/
theorem scans_spell (writable : ∀ k ∈ ks, k.isWritable = true)
    (deep : depthAfterAll? depth ks = some depth') :
    Scans depth depth' ks (spell ks ++ '\n' :: cs) ('\n' :: cs) := by
  fun_induction spell ks generalizing depth with
  | case1 =>
    obtain rfl := Option.some.inj deep
    exact .nil
  | case2 k =>
    obtain ⟨between, one, none⟩ := Option.bind_eq_some_iff.1 deep
    obtain rfl := Option.some.inj none
    exact .token (writable k List.mem_cons_self) (stops_of_separator (by decide)) one
  | case3 k k' ks ih =>
    obtain ⟨between, one, more⟩ := Option.bind_eq_some_iff.1 deep
    have others := ih (fun k hk => writable k (List.mem_cons_of_mem _ hk)) more
    have head : spell (k' :: ks) = k'.spelling ++ (spell (k' :: ks)).drop k'.spelling.length := by
      cases ks with
      | nil => simp [spell]
      | cons k'' ks => simp [spell]
    rw [List.append_assoc, List.append_assoc]
    by_cases clings : k.clings k' = true
    · have first : Scans depth between [k] (k.spelling ++ (spell (k' :: ks) ++ '\n' :: cs))
          (spell (k' :: ks) ++ '\n' :: cs) := by
        refine .token (writable k List.mem_cons_self) ?_ one
        rw [head, List.append_assoc]
        exact stops_of_clings clings
      rw [if_pos clings]
      exact first.trans others
    · have first : Scans depth between [k]
          (k.spelling ++ ' ' :: (spell (k' :: ks) ++ '\n' :: cs))
          (' ' :: (spell (k' :: ks) ++ '\n' :: cs)) :=
        .token (writable k List.mem_cons_self) (stops_of_separator (by decide)) one
      rw [if_neg clings]
      exact first.trans (Scans.space.trans others)

end

/-! ### Tokens with all their brackets -/

/-- The tokens can be written and close the brackets that they open. -/
structure Balanced (ks : List Kind) : Prop where
  writable : ∀ k ∈ ks, k.isWritable = true
  level : ∀ depth, depthAfterAll? depth ks = some depth

namespace Balanced

variable {k : Kind} {ks ks' : List Kind}

theorem nil : Balanced [] where
  writable _ hk := nomatch hk
  level _ := rfl

theorem append (h : Balanced ks) (h' : Balanced ks') : Balanced (ks ++ ks') where
  writable k hk := (List.mem_append.1 hk).elim (h.writable k) (h'.writable k)
  level depth := (depthAfterAll?_append (h.level depth)).trans (h'.level depth)

theorem cons (writable : k.isWritable = true) (level : ∀ depth, k.depthAfter? depth = some depth)
    (h : Balanced ks) : Balanced (k :: ks) where
  writable := List.forall_mem_cons.2 ⟨writable, h.writable⟩
  level depth := by
    rw [depthAfterAll?, List.foldlM_cons, level depth]
    exact h.level depth

/-- Tokens between an opening and a closing bracket. -/
theorem between {s s' : Symbol} (opens : ∀ depth, Token.depthAfter? depth s = some (depth + 1))
    (closes : ∀ depth, Token.depthAfter? (depth + 1) s' = some depth) (h : Balanced ks)
    (h' : Balanced ks') :
    Balanced (.mark (.symbol s) :: (ks ++ .mark (.symbol s') :: ks')) where
  writable := by
    simp only [List.mem_cons, List.mem_append]
    rintro k (rfl | hk | rfl | hk)
    · rfl
    · exact h.writable k hk
    · rfl
    · exact h'.writable k hk
  level depth := by
    have inside : depthAfterAll? (depth + 1) (ks ++ .mark (.symbol s') :: ks') = some depth := by
      rw [depthAfterAll?_append (h.level (depth + 1)), depthAfterAll?, List.foldlM_cons,
        Kind.depthAfter?, closes]
      exact h'.level depth
    rw [depthAfterAll?, List.foldlM_cons, Kind.depthAfter?, opens]
    exact inside

theorem parens (h : Balanced ks) (h' : Balanced ks') :
    Balanced (.mark (.symbol .openParen) :: (ks ++ .mark (.symbol .closeParen) :: ks')) :=
  .between (fun _ => rfl) (fun _ => rfl) h h'

theorem brackets (h : Balanced ks) (h' : Balanced ks') :
    Balanced (.mark (.symbol .openBracket) :: (ks ++ .mark (.symbol .closeBracket) :: ks')) :=
  .between (fun _ => rfl) (fun _ => rfl) h h'

theorem keyword (w : Keyword) (h : Balanced ks) : Balanced (.mark (.keyword w) :: ks) :=
  h.cons rfl fun _ => rfl

theorem name {s : String} (identifier : isIdentifier s = true) (h : Balanced ks) :
    Balanced (.name s :: ks) := h.cons identifier fun _ => rfl

end Balanced

/-! ### Lines one after another -/

/-- A line: the number of blocks around it and its tokens. -/
structure Line where
  level : Nat
  kinds : List Kind

namespace Line

def text (l : Line) : List Char := List.replicate (4 * l.level) ' ' ++ (spell l.kinds ++ ['\n'])

end Line

/-- The tokens make up a line. -/
def Fits (ks : List Kind) : Prop := ks ≠ [] ∧ Balanced ks

/-- The layout tokens between a line and the next one, from level to level. -/
def shift (level level' : Nat) : List Kind :=
  if level < level' then [.mark .indent] else List.replicate (level - level') (.mark .dedent)

/-- The tokens of lines after a line of the given level; in the end the blocks above `base` are
closed. -/
def laid (base : Nat) : Nat → List Line → List Kind
  | level, [] => List.replicate (level - base) (.mark .dedent)
  | level, l :: ls => shift level l.level ++ (l.kinds ++ .mark .newline :: laid base l.level ls)

/-- Each line is at most one block deeper than the one before. -/
def Stepwise : Nat → List Line → Prop
  | _, [] => True
  | level, l :: ls => l.level ≤ level + 1 ∧ Stepwise l.level ls

/-- The columns of the open blocks, innermost first. -/
def columnsAt : Nat → List Nat
  | 0 => []
  | level + 1 => 4 * (level + 1) :: columnsAt level

section

variable {finish : Position} {base level level' : Nat} {l : Line} {ls ls' : List Line}
  {gs : List Glyph} {cs : List Char}

theorem headD_columnsAt (level : Nat) : (columnsAt level).headD 0 = 4 * level := by
  cases level <;> rfl

theorem length_columnsAt (level : Nat) : (columnsAt level).length = level := by
  induction level with
  | zero => rfl
  | succ level ih => exact congrArg (· + 1) ih

theorem closedBy_columnsAt (le : level' ≤ level) :
    ∃ closed, closed.length = level - level' ∧
      closedBy (4 * level') (columnsAt level) = (closed, columnsAt level') := by
  induction level with
  | zero =>
    obtain rfl := Nat.le_zero.1 le
    exact ⟨[], rfl, rfl⟩
  | succ level ih =>
    rcases Nat.lt_or_eq_of_le le with lt | rfl
    · obtain ⟨closed, length, eq⟩ := ih (Nat.le_of_lt_succ lt)
      refine ⟨4 * (level + 1) :: closed, ?_, ?_⟩
      · rw [List.length_cons, length]
        omega
      · rw [columnsAt, closedBy, if_pos (by omega), eq]
    · exact ⟨[], (Nat.sub_self _).symm, by rw [columnsAt, closedBy, if_neg (Nat.lt_irrefl _)]⟩

/-- The layout tokens in front of a line are those of the change of level. -/
theorem indentation_columnsAt (le : level' ≤ level + 1) (p : Position) :
    ∃ ts, ts.map Token.kind = shift level level' ∧
      indentation (columnsAt level) (4 * level') p = .ok (ts, columnsAt level') := by
  unfold indentation shift
  rw [headD_columnsAt]
  by_cases deeper : level < level'
  · obtain rfl : level' = level + 1 := Nat.le_antisymm le deeper
    exact ⟨[⟨.mark .indent, p, p.line⟩], by rw [if_pos deeper]; rfl,
      by rw [if_pos (by omega)]; rfl⟩
  · obtain ⟨closed, length, eq⟩ := closedBy_columnsAt (Nat.le_of_not_lt deeper)
    refine ⟨closed.map fun _ => ⟨.mark .dedent, p, p.line⟩, ?_, ?_⟩
    · rw [if_neg deeper, List.map_map, ← length]
      exact List.map_const'
    · rw [if_neg (by omega), eq]
      dsimp only
      rw [headD_columnsAt, if_pos rfl]

theorem margin_blanks {n : Nat} {c : Char} (column : Nat) (solid : c ∉ blanks)
    (h : gs.map Glyph.char = List.replicate n ' ' ++ c :: cs) :
    ∃ g rest, g.char = c ∧ rest.map Glyph.char = cs ∧
      margin column gs = (column + n, g :: rest) := by
  induction n generalizing gs column with
  | zero =>
    obtain ⟨g, rest, rfl, rfl, after⟩ := List.map_eq_cons_iff.1 h
    refine ⟨g, rest, rfl, after, ?_⟩
    simp only [blanks, List.mem_cons, List.not_mem_nil, or_false, not_or] at solid
    simp [margin, solid]
  | succ n ih =>
    obtain ⟨k, others, rfl, blank, after⟩ := List.map_eq_cons_iff.1 h
    obtain ⟨g, rest, first, after, eq⟩ := ih (column + 1) after
    refine ⟨g, rest, first, after, ?_⟩
    rw [margin, if_pos blank, eq, Nat.add_assoc, Nat.add_comm 1]

/-- The scan of written lines gives their tokens. -/
theorem scanLine_text (fits : ∀ l ∈ ls, Fits l.kinds) (stepwise : Stepwise level ls)
    (h : gs.map Glyph.char = ls.flatMap Line.text) :
    ∃ ts, ts.map Token.kind = laid 0 level ls ++ [.mark .endOfFile] ∧
      scanLine finish (columnsAt level) gs = .ok ts := by
  induction ls generalizing level gs with
  | nil =>
    obtain rfl := List.map_eq_nil_iff.1 h
    refine ⟨_, ?_, scanLine_nil rfl⟩
    simp [laid, length_columnsAt, List.map_const']
  | cons l ls ih =>
    obtain ⟨some, writable, level⟩ := fits l List.mem_cons_self
    obtain ⟨k, ks, kinds⟩ := List.exists_cons_of_ne_nil some
    obtain ⟨c, part, spelled, solid⟩ := spelling_eq_cons (writable k (kinds ▸ List.mem_cons_self))
    have begins : ∃ cs, spell l.kinds = c :: cs := by
      rw [kinds]
      cases ks with
      | nil => exact ⟨part, spelled⟩
      | cons k' ks => exact ⟨_, by rw [spell, spelled]; rfl⟩
    obtain ⟨others, begins⟩ := begins
    rw [List.flatMap_cons, Line.text, List.append_assoc, begins] at h
    obtain ⟨g, rest, rfl, after, indented⟩ := margin_blanks 0 solid h
    rw [Nat.zero_add] at indented
    obtain ⟨layout, hlayout, indentation⟩ := indentation_columnsAt stepwise.1 g.pos
    have line : (g :: rest).map Glyph.char = spell l.kinds ++ '\n' :: ls.flatMap Line.text := by
      rw [List.map_cons, after, begins]
      simp
    obtain ⟨ts, feed, hts, atEnd, scan⟩ :=
      scans_spell writable (level 0) finish (columnsAt l.level) (!layout.isEmpty) _ line
    obtain ⟨g', rest', rfl, isFeed, after'⟩ := List.map_eq_cons_iff.1 atEnd
    obtain ⟨ts', hts', scan'⟩ :=
      ih (fun l hl => fits l (List.mem_cons_of_mem _ hl)) stepwise.2 after'
    simp only [blanks, List.mem_cons, List.not_mem_nil, or_false, not_or] at solid
    refine ⟨layout ++ (ts ++ ⟨.mark .newline, g'.pos, (g'.pos.after '\n').line⟩ :: ts'), ?_, ?_⟩
    · rw [laid, List.map_append, List.map_append, List.map_cons, hlayout, hts, hts',
        List.append_assoc, List.append_assoc]
      rfl
    · have opened : (!layout.isEmpty || !l.kinds.isEmpty) = true := by
        rw [kinds]
        exact Bool.or_true _
      have still : afterBlanks false (g' :: rest') = g' :: rest' := by
        rw [afterBlanks.eq_def]
        simp [isFeed]
      rw [scanLine_cons indented, if_neg (by simp [solid]), if_neg (by simp [solid]), indentation]
      dsimp only [bind, Except.bind]
      rw [scan, opened, scanRest_cons still, if_pos isFeed, if_neg (Nat.lt_irrefl 0), scan']
      rfl

/-- The scan of one line without a line end gives its tokens. -/
theorem scanLine_last {ks : List Kind} {c : Char} (solid : c ∉ blanks) (some : ks ≠ [])
    (scans : Scans 0 0 ks (c :: cs) []) (h : gs.map Glyph.char = c :: cs) :
    ∃ ts, ts.map Token.kind = ks ++ [.mark .newline, .mark .endOfFile] ∧
      scanLine finish [] gs = .ok ts := by
  obtain ⟨g, rest, rfl, after, flush⟩ := margin_blanks (n := 0) 0 solid h
  have line : (g :: rest).map Glyph.char = g.char :: cs := by rw [List.map_cons, after]
  obtain ⟨ts, none, hts, atEnd, scan⟩ := scans finish [] false _ line
  obtain rfl := List.map_eq_nil_iff.1 atEnd
  have opened : (false || !ks.isEmpty) = true := by simpa using some
  let token (m : Mark) : Token := ⟨.mark m, finish, finish.line⟩
  refine ⟨ts ++ [token .newline, token .endOfFile], by rw [List.map_append, hts]; rfl, ?_⟩
  simp only [blanks, List.mem_cons, List.not_mem_nil, or_false, not_or] at solid
  rw [scanLine_cons flush, if_neg (by simp [solid]), if_neg (by simp [solid])]
  change (scanRest finish [] 0 false (g :: rest) >>= fun others => .ok ([] ++ others)) = _
  rw [scan, opened, scanRest_nil rfl]
  rfl

/-- A text that is one line without a line end has the tokens of the line. -/
theorem tokenize_line {ks : List Kind} {c : Char} (solid : c ∉ blanks) (some : ks ≠ [])
    (scans : Scans 0 0 ks (c :: cs) []) :
    ∃ ts, ts.map Token.kind = ks ++ [.mark .newline, .mark .endOfFile] ∧
      tokenize (String.ofList (c :: cs)) = .ok ts := by
  unfold tokenize
  rw [String.toList_ofList]
  exact scanLine_last solid some scans (Glyph.map_char_ofChars _ _)

end

/-! ### Lines one below another -/

/-- A line with the lines of the block that it heads, if it heads one. -/
inductive Outline where
  | entry (kinds : List Kind) (below : List Outline)

namespace Outline

mutual

def lines (level : Nat) : Outline → List Line
  | entry kinds below => ⟨level, kinds⟩ :: linesOf (level + 1) below

def linesOf (level : Nat) : List Outline → List Line
  | [] => []
  | o :: os => o.lines level ++ linesOf level os

end

/-- The tokens of a block, from line end to dedent; there is none without lines. -/
def blockKinds (below : List Outline) (kinds : List Kind) : List Kind :=
  if below.isEmpty then [] else .mark .indent :: (kinds ++ [.mark .dedent])

mutual

def allKinds : Outline → List Kind
  | entry kinds below => kinds ++ .mark .newline :: blockKinds below (allKindsOf below)

def allKindsOf : List Outline → List Kind
  | [] => []
  | o :: os => o.allKinds ++ allKindsOf os

end

end Outline

section

variable {base level level' : Nat} {ls ls' : List Line}

theorem shift_self (level : Nat) : shift level level = [] := by
  rw [shift, if_neg (Nat.lt_irrefl level), Nat.sub_self]
  rfl

/-- What closes down to a level closes first to a level between. -/
theorem laid_of_le (le : base ≤ level) (le' : level ≤ level')
    (h : ∀ l ∈ ls.head?, l.level ≤ level) :
    laid base level' ls =
      List.replicate (level' - level) (.mark .dedent) ++ laid base level ls := by
  cases ls with
  | nil =>
    rw [laid, laid, List.replicate_append_replicate]
    congr 1
    omega
  | cons l ls =>
    have lower : l.level ≤ level := h l rfl
    have sum : level' - l.level = level' - level + (level - l.level) := by omega
    rw [laid, laid, shift, shift, if_neg (by omega), if_neg (by omega), sum,
      ← List.replicate_append_replicate, List.append_assoc]

/-- Lines of a block can be laid out apart from what follows it. -/
theorem laid_append (le : base ≤ level) (le' : level ≤ level') (inside : ∀ l ∈ ls, level ≤ l.level)
    (h : ∀ l ∈ ls'.head?, l.level ≤ level) :
    laid base level' (ls ++ ls') = laid level level' ls ++ laid base level ls' := by
  induction ls generalizing level' with
  | nil => exact laid_of_le le le' h
  | cons l ls ih =>
    have others := ih (inside l List.mem_cons_self) fun l hl => inside l (List.mem_cons_of_mem _ hl)
    rw [List.cons_append, laid, laid, others]
    simp only [List.append_assoc, List.cons_append]

end

namespace Outline

mutual

theorem level_le_lines (level : Nat) : (o : Outline) → ∀ l ∈ o.lines level, level ≤ l.level
  | entry kinds below => by
    intro l hl
    rcases List.mem_cons.1 hl with rfl | hl
    · exact Nat.le_refl level
    · exact Nat.le_of_succ_le (level_le_linesOf (level + 1) below l hl)

theorem level_le_linesOf (level : Nat) :
    (os : List Outline) → ∀ l ∈ linesOf level os, level ≤ l.level
  | [] => fun _ hl => nomatch hl
  | o :: os => by
    intro l hl
    rcases List.mem_append.1 hl with hl | hl
    · exact level_le_lines level o l hl
    · exact level_le_linesOf level os l hl

end

theorem linesOf_eq_cons (level : Nat) (o : Outline) (os : List Outline) :
    ∃ l ls, linesOf level (o :: os) = l :: ls ∧ l.level = level := by
  cases o with
  | entry kinds below =>
    exact ⟨⟨level, kinds⟩, linesOf (level + 1) below ++ linesOf level os, rfl, rfl⟩

theorem head_linesOf (level : Nat) (os : List Outline) :
    ∀ l ∈ (linesOf level os).head?, l.level = level := by
  cases os with
  | nil => exact fun _ hl => nomatch hl
  | cons o os =>
    obtain ⟨first, others, eq, atLevel⟩ := linesOf_eq_cons level o os
    rw [eq]
    intro l hl
    obtain rfl := Option.some.inj hl
    exact atLevel

mutual

theorem stepwise_lines (level : Nat) : (o : Outline) → ∀ {before : Nat} {ls : List Line},
    level ≤ before + 1 → (∀ before, level ≤ before + 1 → Stepwise before ls) →
      Stepwise before (o.lines level ++ ls)
  | entry _ below, _, _, le, others =>
    ⟨le, stepwise_linesOf (level + 1) below (Nat.le_refl _) fun before le =>
      others before (Nat.le_of_succ_le le)⟩

theorem stepwise_linesOf (level : Nat) : (os : List Outline) → ∀ {before : Nat} {ls : List Line},
    level ≤ before + 1 → (∀ before, level ≤ before + 1 → Stepwise before ls) →
      Stepwise before (linesOf level os ++ ls)
  | [], before, _, le, others => others before le
  | o :: os, before, ls, le, others => by
    rw [linesOf, List.append_assoc]
    exact stepwise_lines level o le fun before le => stepwise_linesOf level os le others

end

mutual

/-- The layout of lines below one another is that of their blocks. -/
theorem laid_lines (level : Nat) : (o : Outline) → laid level level (o.lines level) = o.allKinds
  | entry kinds below => by
    rw [lines, laid, shift_self, allKinds, blockKinds, List.nil_append]
    congr 2
    cases below with
    | nil =>
      rw [linesOf, laid, Nat.sub_self]
      rfl
    | cons o os =>
      obtain ⟨l, ls, eq, deeper⟩ := linesOf_eq_cons (level + 1) o os
      have block := laid_linesOf (level + 1) (o :: os)
      have inside := level_le_linesOf (level + 1) (o :: os)
      have closed : laid level (level + 1) (linesOf (level + 1) (o :: os) ++ []) = _ :=
        laid_append (Nat.le_succ level) (Nat.le_refl _) inside fun l hl => nomatch hl
      have one : level + 1 - level = 1 := Nat.add_sub_cancel_left level 1
      rw [List.append_nil, block, laid, one, List.replicate_one] at closed
      rw [List.isEmpty_cons, if_neg Bool.false_ne_true, ← closed, eq, laid, laid, deeper,
        shift_self, shift, if_pos (Nat.lt_succ_self level)]
      rfl

theorem laid_linesOf (level : Nat) :
    (os : List Outline) → laid level level (linesOf level os) = allKindsOf os
  | [] => by
    rw [linesOf, laid, Nat.sub_self]
    rfl
  | o :: os => by
    rw [linesOf, allKindsOf, laid_append (Nat.le_refl _) (Nat.le_refl _) (level_le_lines level o)
      fun l hl => Nat.le_of_eq (head_linesOf level os l hl), laid_lines level o,
      laid_linesOf level os]

end

mutual

/-- The property holds of the tokens of each line. -/
def Each (P : List Kind → Prop) : Outline → Prop
  | entry kinds below => P kinds ∧ EachOf P below

def EachOf (P : List Kind → Prop) : List Outline → Prop
  | [] => True
  | o :: os => o.Each P ∧ EachOf P os

end

mutual

theorem Each.lines {P : List Kind → Prop} (level : Nat) :
    (o : Outline) → o.Each P → ∀ l ∈ o.lines level, P l.kinds
  | entry _ below, ⟨first, others⟩, l, hl => by
    rcases List.mem_cons.1 hl with rfl | hl
    · exact first
    · exact EachOf.linesOf (level + 1) below others l hl

theorem EachOf.linesOf {P : List Kind → Prop} (level : Nat) :
    (os : List Outline) → EachOf P os → ∀ l ∈ linesOf level os, P l.kinds
  | [], _, _, hl => nomatch hl
  | o :: os, ⟨first, others⟩, l, hl => by
    rcases List.mem_append.1 hl with hl | hl
    · exact Each.lines level o first l hl
    · exact EachOf.linesOf level os others l hl

end

/-- The text of lines below one another. -/
def textOf (os : List Outline) : String := String.ofList ((linesOf 0 os).flatMap Line.text)

/-- The tokens have their layout when they are scanned. -/
theorem tokenize_textOf {os : List Outline} (fits : EachOf Fits os) :
    ∃ ts, ts.map Token.kind = allKindsOf os ++ [.mark .endOfFile] ∧
      tokenize (textOf os) = .ok ts := by
  have stepwise : Stepwise 0 (linesOf 0 os ++ []) :=
    stepwise_linesOf 0 os (Nat.zero_le _) fun _ _ => trivial
  rw [List.append_nil] at stepwise
  rw [← laid_linesOf 0 os]
  refine scanLine_text (EachOf.linesOf 0 os fits) stepwise ?_
  rw [Glyph.map_char_ofChars, textOf, String.toList_ofList]

end Outline

end Footprint.Token
