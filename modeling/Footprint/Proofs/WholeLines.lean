import Footprint.Proofs.Lookahead
import Footprint.Proofs.ScanSteps

set_option autoImplicit false

/-!
A scan of whole lines. As long as it has not gone past them, it does not depend on what comes after
them.
-/

namespace Footprint.Token

/-- The glyphs end where a line does. -/
def WholeLines (as : List Glyph) : Prop := ∀ g ∈ as.getLast?, g.char = '\n'

variable {as bs qs gs rest : List Glyph} {a g : Glyph}

namespace WholeLines

theorem of_suffix (h : WholeLines as) (suffix : bs <:+ as) : WholeLines bs := by
  obtain ⟨before, rfl⟩ := suffix
  cases bs with
  | nil => exact nofun
  | cons b bs =>
    rwa [WholeLines, List.getLast?_append_of_ne_nil before (List.cons_ne_nil b bs)] at h

theorem tail (h : WholeLines (a :: as)) : WholeLines as := h.of_suffix (List.suffix_cons a as)

theorem tail_ne_nil (h : WholeLines (a :: as)) (other : a.char ≠ '\n') : as ≠ [] := by
  rintro rfl
  exact other (h a rfl)

end WholeLines

/-! ### Readers -/

theorem exists_margin (lines : WholeLines as) (some : as ≠ []) (column : Nat) :
    ∃ column' g rest, g :: rest <:+ as ∧
      ∀ qs, margin column (as ++ qs) = (column', g :: (rest ++ qs)) := by
  induction as generalizing column with
  | nil => exact absurd rfl some
  | cons a as ih =>
    have passed (column' : Nat) (blank : ∀ qs, margin column (a :: (as ++ qs)) =
        margin column' (as ++ qs)) (other : a.char ≠ '\n') :
        ∃ column' g rest, g :: rest <:+ a :: as ∧
          ∀ qs, margin column (a :: as ++ qs) = (column', g :: (rest ++ qs)) := by
      obtain ⟨column', g, rest, suffix, read⟩ := ih lines.tail (lines.tail_ne_nil other) column'
      exact ⟨column', g, rest, suffix.trans (List.suffix_cons a as),
        fun qs => (blank qs).trans (read qs)⟩
    by_cases space : a.char = ' '
    · exact passed (column + 1) (fun qs => by simp [margin, space]) (by simp [space])
    by_cases tab : a.char = '\t'
    · exact passed (tabStop column) (fun qs => by simp [margin, tab]) (by simp [tab])
    by_cases feed : a.char = '\x0c'
    · exact passed 0 (fun qs => by simp [margin, feed]) (by simp [feed])
    refine ⟨column, a, as, List.suffix_refl _, fun qs => ?_⟩
    simp [margin, space, tab, feed]

/-- A margin that ends before the lines do. -/
theorem margin_whole {column : Nat} (h : margin 0 (as ++ qs) = (column, g :: rest))
    (lines : WholeLines as) (some : as ≠ []) : ∃ rest', rest = rest' ++ qs ∧ g :: rest' <:+ as ∧
      ∀ qs', margin 0 (as ++ qs') = (column, g :: (rest' ++ qs')) := by
  obtain ⟨column', g', rest', suffix, elsewhere⟩ := exists_margin lines some 0
  rw [elsewhere qs] at h
  cases h
  exact ⟨rest', rfl, suffix, elsewhere⟩

theorem afterComment_whole (lines : WholeLines as) (some : as ≠ []) (qs : List Glyph) :
    afterComment (as ++ qs) = afterComment as ++ qs ∧ afterComment as ≠ [] := by
  induction as with
  | nil => exact absurd rfl some
  | cons a as ih =>
    by_cases feed : a.char = '\n'
    · simp [afterComment, feed]
    · have later := ih lines.tail (lines.tail_ne_nil feed)
      simpa [afterComment, feed] using later

theorem Skips.length_le (h : Skips gs rest) : rest.length ≤ gs.length := by
  rw [← h.afterBlanks_eq]
  exact length_afterBlanks_le false gs

/-- Blanks that end before the lines do. -/
theorem Skips.whole (h : Skips gs (g :: rest)) (split : gs = as ++ qs) (lines : WholeLines as)
    (le : qs.length ≤ rest.length) : ∃ rest', rest = rest' ++ qs ∧
      ∀ qs', Skips (as ++ qs') (g :: (rest' ++ qs')) := by
  have some {gs as : List Glyph} (skips : Skips gs (g :: rest)) (split : gs = as ++ qs) :
      ∃ a as', as = a :: as' := by
    refine List.exists_cons_of_ne_nil ?_
    rintro rfl
    have shorter := skips.length_le
    rw [split, List.nil_append, List.length_cons] at shorter
    omega
  generalize out : g :: rest = gs' at h
  induction h generalizing as with
  | nil => cases out
  | blank blank skips ih =>
    subst out
    obtain ⟨a, as, rfl⟩ := some (skips.blank blank) split
    cases split
    obtain ⟨rest', same, elsewhere⟩ := ih rfl lines.tail rfl
    exact ⟨rest', same, fun qs' => (elsewhere qs').blank blank⟩
  | @comment b gs hash =>
    obtain ⟨a, as, rfl⟩ := some (out ▸ Skips.comment hash) split
    obtain ⟨rfl, rfl⟩ := List.cons.inj split
    have read := afterComment_whole lines.tail (lines.tail_ne_nil (by simp [hash]))
    obtain ⟨g', rest', left⟩ := List.exists_cons_of_ne_nil (read qs).2
    change g :: rest = afterComment (as ++ qs) at out
    rw [(read qs).1, left, List.cons_append] at out
    obtain ⟨rfl, rfl⟩ := List.cons.inj out
    refine ⟨rest', rfl, fun qs' => ?_⟩
    have skips : Skips (b :: (as ++ qs')) (afterComment (as ++ qs')) := .comment hash
    rwa [(read qs').1, left] at skips
  | @join b a' gs _ back feed skips ih =>
    subst out
    obtain ⟨a, as, rfl⟩ := some (skips.join back feed) split
    obtain ⟨rfl, behind⟩ := List.cons.inj split
    obtain ⟨a, as, rfl⟩ := List.exists_cons_of_ne_nil (lines.tail_ne_nil (by simp [back]))
    cases behind
    obtain ⟨rest', same, elsewhere⟩ := ih rfl lines.tail.tail rfl
    exact ⟨rest', same, fun qs' => (elsewhere qs').join back feed⟩
  | @joinReturn b a' b' gs _ back ret feed skips ih =>
    subst out
    obtain ⟨a, as, rfl⟩ := some (skips.joinReturn back ret feed) split
    obtain ⟨rfl, behind⟩ := List.cons.inj split
    obtain ⟨a, as, rfl⟩ := List.exists_cons_of_ne_nil (lines.tail_ne_nil (by simp [back]))
    obtain ⟨rfl, behind⟩ := List.cons.inj behind
    obtain ⟨b, as, rfl⟩ := List.exists_cons_of_ne_nil (lines.tail.tail_ne_nil (by simp [ret]))
    cases behind
    obtain ⟨rest', same, elsewhere⟩ := ih rfl lines.tail.tail.tail rfl
    exact ⟨rest', same, fun qs' => (elsewhere qs').joinReturn back ret feed⟩
  | @backslash b gs back first second =>
    obtain ⟨rfl, rfl⟩ := List.cons.inj out
    obtain ⟨a, as, rfl⟩ := some (.backslash back first second) split
    obtain ⟨rfl, behind⟩ := List.cons.inj split
    obtain ⟨a, as, rfl⟩ := List.exists_cons_of_ne_nil (lines.tail_ne_nil (by simp [back]))
    cases behind
    refine ⟨a :: as, rfl, fun qs' => .backslash back ?_ ?_⟩
    · rintro _ _ ⟨⟩
      exact first a _ rfl
    · intro _ b bs same ⟨ret, feed⟩
      obtain ⟨rfl, same⟩ := List.cons.inj same
      obtain ⟨b', as, rfl⟩ := List.exists_cons_of_ne_nil (lines.tail.tail_ne_nil (by simp [ret]))
      cases same
      exact second a b _ rfl ⟨ret, feed⟩
  | text text =>
    obtain ⟨rfl, rfl⟩ := List.cons.inj out
    obtain ⟨a, as, rfl⟩ := some (.text text) split
    cases split
    exact ⟨as, rfl, fun qs' => .text text⟩

theorem afterBlanks_whole (h : afterBlanks false (as ++ qs) = g :: rest) (lines : WholeLines as)
    (le : qs.length ≤ rest.length) : ∃ rest', rest = rest' ++ qs ∧ g :: rest' <:+ as ∧
      ∀ qs', afterBlanks false (as ++ qs') = g :: (rest' ++ qs') := by
  obtain ⟨rest', rfl, elsewhere⟩ := (h ▸ Skips.of_afterBlanks rfl (as ++ qs)).whole rfl lines le
  refine ⟨rest', rfl, ?_, fun qs' => (elsewhere qs').afterBlanks_eq⟩
  have alone := suffix_of_blanks (elsewhere []).afterBlanks_eq
  rwa [List.append_nil, List.append_nil] at alone

theorem read_suffix {finish : Position} {depth : Nat} {r : Read} (other : g.char ≠ '\n')
    (h : read finish depth g gs = .ok r) : r.rest <:+ gs :=
  List.suffix_of_suffix_length_le (closes_read other h).suffix (List.suffix_cons g gs)
    (length_read_le h)

/-- A token that ends before the lines do. -/
theorem read_whole {finish : Position} {depth : Nat} {r : Read} (other : g.char ≠ '\n')
    (h : read finish depth g (as ++ qs) = .ok r) (lines : WholeLines (g :: as))
    (lt : qs.length < r.rest.length) : ∃ rest', r.rest = rest' ++ qs ∧ rest' <:+ as ∧
      ∀ finish' qs', read finish' depth g (as ++ qs') = .ok ⟨r.kind, r.depth, rest' ++ qs'⟩ := by
  by_cases quoted : g.char = '"' ∨ g.char = '\x27'
  · obtain ⟨s, rest, body, rfl⟩ := (read_quoted_eq_ok quoted).1 h
    obtain ⟨taken, split⟩ := (closes_stringLiteral other body).suffix
    obtain ⟨rest', rfl⟩ : qs <:+ rest :=
      List.suffix_of_suffix_length_le ⟨as, rfl⟩ ⟨taken, split⟩ (Nat.le_of_lt lt)
    rw [← List.append_assoc] at split
    obtain rfl := List.append_cancel_right split
    have some : rest' ≠ [] := by
      rintro rfl
      exact Nat.lt_irrefl _ lt
    refine ⟨rest', rfl, ⟨taken, rfl⟩, fun finish' qs' => ?_⟩
    obtain ⟨b, bs, rfl⟩ := List.exists_cons_of_ne_nil some
    have again : stringLiteral g.char g.pos finish' (taken ++ (b :: bs ++ qs')) =
        .ok (s, b :: bs ++ qs') :=
      stringLiteral_append body (List.append_assoc taken (b :: bs) qs) finish' id
    rw [← List.append_assoc] at again
    exact (read_quoted_eq_ok quoted).2 ⟨s, _, again, rfl⟩
  · -- the glyphs up to the end of the line are all that is looked at
    obtain ⟨line, bs, rfl, stop, inLine⟩ := exists_line as
    have some : bs ≠ [] := by
      rintro rfl
      rw [List.append_nil] at lines
      have last := List.getLast_mem (lines.tail_ne_nil other)
      exact (inLine _ last).1 (lines.tail _ (List.getLast?_eq_some_getLast _))
    obtain ⟨b, bs, rfl⟩ := List.exists_cons_of_ne_nil some
    have read' (finish' : Position) (qs' : List Glyph) :
        read finish' depth g (line ++ b :: bs ++ qs') = (read finish depth g line).map
          fun r => ⟨r.kind, r.depth, r.rest ++ (b :: bs ++ qs')⟩ := by
      rw [List.append_assoc]
      exact read_append line quoted stop
    rw [read'] at h
    cases alone : read finish depth g line with
    | error e =>
      rw [alone] at h
      cases h
    | ok r' =>
      rw [alone] at h
      cases h
      refine ⟨r'.rest ++ b :: bs, (List.append_assoc _ _ _).symm, ?_, fun f qs' => ?_⟩
      · obtain ⟨taken, split⟩ := read_suffix other alone
        exact ⟨taken, by rw [← List.append_assoc, split]⟩
      · rw [read', alone, List.append_assoc]
        rfl

/-! ### Steps -/

/-- The last `n` glyphs are ahead, and others before them or the beginning of a line. -/
def Stage.Spares (n : Nat) (s : Stage) : Prop :=
  n < s.ahead.length ∨ s.spot = .lineStart ∧ n ≤ s.ahead.length

variable {finish : Position} {s s' : Stage} {ts : List Token} {columns : List Nat} {spot : Spot}

theorem Step.lt_of_spares {n : Nat} (h : Step finish s ts s') (spares : s'.Spares n) :
    n < s.ahead.length := by
  rcases spares with lt | ⟨atStart, le⟩
  · exact Nat.lt_of_lt_of_le lt h.suffix.length_le
  · cases h with
    | blank blank =>
      exact Nat.lt_of_le_of_lt le (Nat.lt_of_succ_le (suffix_of_margin blank).length_le)
    | @comment _ _ _ _ rest blank =>
      have le := Nat.le_trans le (length_afterComment_le rest)
      exact Nat.lt_of_le_of_lt le (Nat.lt_of_succ_le (suffix_of_margin blank).length_le)
    | ends blank =>
      exact Nat.lt_of_le_of_lt le (Nat.lt_of_succ_le (suffix_of_blanks blank).length_le)
    | begins | join | token => cases atStart

/-- A step within whole lines is the same step whatever comes after them. -/
theorem Step.elsewhere (h : Step finish ⟨columns, spot, as ++ qs⟩ ts s') (lines : WholeLines as)
    (spares : s'.Spares qs.length) :
    ∃ as', s'.ahead = as' ++ qs ∧ as' <:+ as ∧
      (∀ t ∈ ts, t.kind.isLayout = false → ∃ g ∈ as, t.endLine = g.pos.line) ∧
      ∀ finish' qs', Step finish' ⟨columns, spot, as ++ qs'⟩ ts
        ⟨s'.columns, s'.spot, as' ++ qs'⟩ := by
  have some : as ≠ [] := by
    rintro rfl
    exact Nat.lt_irrefl _ (h.lt_of_spares spares)
  cases h with
  | blank blank feed =>
    obtain ⟨rest, rfl, suffix, elsewhere⟩ := margin_whole blank lines some
    exact ⟨rest, rfl, (List.suffix_cons _ _).trans suffix, nofun,
      fun finish' qs' => .blank (elsewhere qs') feed⟩
  | @comment _ _ g _ _ blank hash =>
    obtain ⟨rest, rfl, suffix, elsewhere⟩ := margin_whole blank lines some
    have read := afterComment_whole (lines.of_suffix suffix).tail
      ((lines.of_suffix suffix).tail_ne_nil (by simp [hash]))
    refine ⟨afterComment rest, (read qs).1, ?_, nofun, fun finish' qs' => ?_⟩
    · exact (afterComment_suffix rest).trans ((List.suffix_cons g rest).trans suffix)
    · have step : Step finish' ⟨columns, .lineStart, as ++ qs'⟩ [] _ :=
        .comment (elsewhere qs') hash
      rwa [(read qs').1] at step
  | begins blank text indented =>
    obtain ⟨rest, rfl, suffix, elsewhere⟩ := margin_whole blank lines some
    refine ⟨_ :: rest, rfl, suffix, fun t ht other => ?_,
      fun finish' qs' => .begins (elsewhere qs') text indented⟩
    obtain ⟨mark, rfl, layout, -⟩ := indentation_layout indented t ht
    exact absurd layout (Bool.eq_false_iff.1 other)
  | join blank feed inside =>
    have lt := spares.resolve_right (by simp)
    obtain ⟨rest, rfl, suffix, elsewhere⟩ := afterBlanks_whole blank lines (Nat.le_of_lt lt)
    exact ⟨rest, rfl, (List.suffix_cons _ _).trans suffix, nofun,
      fun finish' qs' => .join (elsewhere qs') feed inside⟩
  | @ends _ isOpen g _ _ blank feed =>
    have le := spares.elim Nat.le_of_lt And.right
    obtain ⟨rest, rfl, suffix, elsewhere⟩ := afterBlanks_whole blank lines le
    refine ⟨rest, rfl, (List.suffix_cons _ _).trans suffix, fun t ht other => ?_,
      fun finish' qs' => .ends (elsewhere qs') feed⟩
    cases isOpen with
    | false => cases ht
    | true =>
      rw [List.mem_singleton.1 ht] at other
      cases other
  | @token _ _ _ g _ _ r blank other found =>
    have lt : qs.length < r.rest.length := spares.resolve_right (by simp)
    obtain ⟨rest, rfl, suffix, elsewhere⟩ := afterBlanks_whole blank lines
      (Nat.le_of_lt (Nat.lt_of_lt_of_le lt (length_read_le found)))
    obtain ⟨rest', same, suffix', read⟩ := read_whole other found (lines.of_suffix suffix) lt
    obtain ⟨kind, depth, left⟩ := r
    obtain rfl : left = rest' ++ qs := same
    -- the place where the token ends is that of the glyph after it, still within the lines
    have some' : rest' ≠ [] := by
      rintro rfl
      exact Nat.lt_irrefl _ lt
    obtain ⟨b, bs, rfl⟩ := List.exists_cons_of_ne_nil some'
    refine ⟨b :: bs, rfl, suffix'.trans ((List.suffix_cons g rest).trans suffix),
      fun t ht _ => ?_, fun finish' qs' => .token (elsewhere qs') other (read finish' qs')⟩
    rw [List.mem_singleton.1 ht]
    rcases Nat.le_total b.pos.line g.pos.line with le | le
    · exact ⟨g, suffix.subset List.mem_cons_self, Nat.max_eq_right le⟩
    · refine ⟨b, suffix.subset (List.mem_cons_of_mem g (suffix'.subset List.mem_cons_self)), ?_⟩
      exact Nat.max_eq_left le

theorem Leads.elsewhere (h : Leads finish ⟨columns, spot, as ++ qs⟩ ts s') (lines : WholeLines as)
    (spares : s'.Spares qs.length) :
    ∃ as', s'.ahead = as' ++ qs ∧ as' <:+ as ∧
      (∀ t ∈ ts, t.kind.isLayout = false → ∃ g ∈ as, t.endLine = g.pos.line) ∧
      ∀ finish' qs', Leads finish' ⟨columns, spot, as ++ qs'⟩ ts
        ⟨s'.columns, s'.spot, as' ++ qs'⟩ := by
  induction h with
  | refl => exact ⟨as, rfl, List.suffix_refl _, nofun, fun _ _ => .refl⟩
  | @snoc mid last ts us _ step ih =>
    obtain ⟨as', ahead, suffix, first, leads⟩ := ih (.inl (step.lt_of_spares spares))
    obtain ⟨columns', spot', gs⟩ := mid
    obtain rfl : gs = as' ++ qs := ahead
    obtain ⟨as'', ahead', suffix', second, again⟩ :=
      step.elsewhere (lines.of_suffix suffix) spares
    refine ⟨as'', ahead', suffix'.trans suffix, fun t ht other => ?_,
      fun finish' qs' => (leads finish' qs').snoc (again finish' qs')⟩
    rcases List.mem_append.1 ht with ht | ht
    · exact first t ht other
    · obtain ⟨g, hg, line⟩ := second t ht other
      exact ⟨g, suffix.subset hg, line⟩

end Footprint.Token
