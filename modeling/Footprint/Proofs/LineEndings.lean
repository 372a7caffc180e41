import Footprint.Proofs.FrontEnd
import Footprint.Proofs.WholeLines

set_option autoImplicit false

/-!
A text and the same text with a carriage return before each line feed. The second is scanned as the
first, with a step more where a line is blank; only in a string literal that goes over the end of a
line is the carriage return seen.
-/

namespace Footprint

/-- The text with a carriage return before each line feed. -/
def withReturns (cs : List Char) : List Char :=
  cs.flatMap fun c => if c = '\n' then ['\r', '\n'] else [c]

namespace Token

/-- The second glyphs are the first, which have no carriage return, with a carriage return before
some line feeds. -/
inductive Crlf : List Glyph → List Glyph → Prop
  | nil : Crlf [] []
  | same {g : Glyph} {gs gs' : List Glyph} : g.char ≠ '\n' → g.char ≠ '\r' → Crlf gs gs' →
      Crlf (g :: gs) (g :: gs')
  | feed {g f : Glyph} {gs gs' : List Glyph} : g.char = '\n' → f.char = '\n' →
      f.pos.line = g.pos.line → Crlf gs gs' → Crlf (g :: gs) (f :: gs')
  | returned {g r f : Glyph} {gs gs' : List Glyph} : g.char = '\n' → r.char = '\r' →
      f.char = '\n' → r.pos.line = g.pos.line → f.pos.line = g.pos.line → Crlf gs gs' →
      Crlf (g :: gs) (r :: f :: gs')

variable {as bs bs' gs gs' rest rest' taken : List Glyph} {g g' : Glyph} {finish : Position}

namespace Crlf

/-- Within a line the glyphs are the same. -/
theorem cons_inv (h : Crlf (g :: gs) gs') (other : g.char ≠ '\n') :
    g.char ≠ '\r' ∧ ∃ rest', gs' = g :: rest' ∧ Crlf gs rest' := by
  cases h with
  | same _ back h => exact ⟨back, _, rfl, h⟩
  | feed feed | returned feed => exact absurd feed other

theorem of_cons (h : Crlf gs (g' :: gs')) (other : g'.char ≠ '\n') (back : g'.char ≠ '\r') :
    ∃ rest, gs = g' :: rest ∧ Crlf rest gs' := by
  cases h with
  | same _ _ h => exact ⟨_, rfl, h⟩
  | feed _ feed => exact absurd feed other
  | returned _ same => exact absurd same back

theorem of_feed (h : Crlf gs (g' :: gs')) (feed : g'.char = '\n') :
    ∃ g rest, gs = g :: rest ∧ g.char = '\n' ∧ Crlf rest gs' := by
  cases h with
  | same other => exact absurd feed other
  | feed feed' _ _ h => exact ⟨_, _, rfl, feed', h⟩
  | returned _ back =>
    rw [back] at feed
    cases feed

/-- Without the carriage return, the line feed after it is still ahead. -/
theorem of_return (h : Crlf gs (g' :: gs')) (back : g'.char = '\r') : Crlf gs gs' ∧
    ∃ g rest, gs = g :: rest ∧ g.char = '\n' := by
  cases h with
  | same _ other => exact absurd back other
  | feed _ feed =>
    rw [back] at feed
    cases feed
  | returned feed _ feed' _ line h => exact ⟨.feed feed feed' line h, _, _, rfl, feed⟩

theorem append (h : Crlf bs bs') (inLine : ∀ g ∈ as, g.char ≠ '\n' ∧ g.char ≠ '\r') :
    Crlf (as ++ bs) (as ++ bs') := by
  induction as with
  | nil => exact h
  | cons a as ih =>
    have ⟨first, others⟩ := List.forall_mem_cons.1 inLine
    exact .same first.1 first.2 (ih others)

theorem append_inv (h : Crlf (as ++ bs) gs') (inLine : ∀ g ∈ as, g.char ≠ '\n') :
    ∃ bs', gs' = as ++ bs' ∧ Crlf bs bs' := by
  induction as generalizing gs' with
  | nil => exact ⟨gs', rfl, h⟩
  | cons a as ih =>
    have ⟨first, others⟩ := List.forall_mem_cons.1 inLine
    obtain ⟨-, rest', rfl, after⟩ := h.cons_inv first
    obtain ⟨bs', rfl, after'⟩ := ih after others
    exact ⟨bs', rfl, after'⟩

theorem here_line (h : Crlf gs gs') :
    (Glyph.here finish gs').line = (Glyph.here finish gs).line := by
  cases h with
  | nil | same => rfl
  | feed _ _ line | returned _ _ _ line => exact line

theorem atLineEnd (h : Crlf gs gs') (ends : AtLineEnd gs) : AtLineEnd gs' := by
  cases h with
  | nil | same => exact ends
  | feed _ feed => exact fun b hb => Option.some.inj hb ▸ .inl feed
  | returned _ back => exact fun b hb => Option.some.inj hb ▸ .inr back

end Crlf

theorem crlf_ofChars {p : Position} {cs : List Char} (none : '\r' ∉ cs) :
    Crlf (Glyph.ofChars p cs) (Glyph.ofChars p (withReturns cs)) ∧
      p.afterAll (withReturns cs) = p.afterAll cs := by
  induction cs generalizing p with
  | nil => exact ⟨.nil, rfl⟩
  | cons c cs ih =>
    obtain ⟨head, none⟩ := not_or.1 (List.mem_cons.not.1 none)
    obtain ⟨crlf, last⟩ := ih (p := p.after c) none
    by_cases feed : c = '\n'
    · subst feed
      exact ⟨.returned rfl rfl rfl rfl rfl crlf, last⟩
    · have plain : withReturns (c :: cs) = c :: withReturns cs := by
        rw [withReturns, List.flatMap_cons, if_neg feed]
        rfl
      rw [plain]
      exact ⟨.same feed (Ne.symm head) crlf, last⟩

/-! ### Readers -/

theorem margin_fst_snd (h : Crlf gs gs') (column : Nat) :
    (margin column gs').1 = (margin column gs).1 ∧
      Crlf (margin column gs).2 (margin column gs').2 := by
  induction h generalizing column with
  | nil => exact ⟨rfl, .nil⟩
  | @same g gs gs' feed back h ih =>
    rw [margin, margin]
    split
    · exact ih _
    · split
      · exact ih _
      · split
        · exact ih _
        · exact ⟨rfl, .same feed back h⟩
  | feed feed feed' line h =>
    simp only [margin, feed, feed']
    exact ⟨rfl, .feed feed feed' line h⟩
  | returned feed back feed' line line' h =>
    simp only [margin, feed, back]
    exact ⟨rfl, .returned feed back feed' line line' h⟩

theorem margin_crlf {column : Nat} (h : Crlf gs gs') (blank : margin 0 gs = (column, rest)) :
    ∃ rest', margin 0 gs' = (column, rest') ∧ Crlf rest rest' := by
  obtain ⟨reached, left⟩ := margin_fst_snd h 0
  rw [blank] at reached left
  exact ⟨(margin 0 gs').2, Prod.ext reached rfl, left⟩

/-- After a comment, no carriage return is left before the line feed. -/
theorem afterComment_crlf (h : Crlf gs gs') : Crlf (afterComment gs) (afterComment gs') ∧
    ∀ g ∈ (afterComment gs').head?, g.char ≠ '\r' := by
  induction h with
  | nil => exact ⟨.nil, nofun⟩
  | same feed back h ih => simpa [afterComment, feed] using ih
  | feed feed feed' line h => simpa [afterComment, feed, feed'] using .feed feed feed' line h
  | returned feed back feed' line line' h =>
    simpa [afterComment, feed, back, feed'] using .feed feed feed' line' h

theorem Skips.crlf (h : Skips gs rest) (crlf : Crlf gs gs') :
    ∃ rest', Skips gs' rest' ∧ Crlf rest rest' ∧ ∀ g ∈ rest'.head?, g.char ≠ '\r' := by
  induction h generalizing gs' with
  | nil =>
    cases crlf
    exact ⟨[], .nil, .nil, nofun⟩
  | @blank g _ _ blank _ ih =>
    have other : g.char ≠ '\n' := by
      intro feed
      simp [feed] at blank
    obtain ⟨-, gs', rfl, after⟩ := crlf.cons_inv other
    obtain ⟨rest', skips, more⟩ := ih after
    exact ⟨rest', skips.blank blank, more⟩
  | comment hash =>
    obtain ⟨-, gs', rfl, after⟩ := crlf.cons_inv (by simp [hash])
    exact ⟨_, .comment hash, afterComment_crlf after⟩
  | join back feed _ ih =>
    obtain ⟨-, gs', rfl, after⟩ := crlf.cons_inv (by simp [back])
    cases after with
    | same other => exact absurd feed other
    | feed _ feed' _ after =>
      obtain ⟨rest', skips, more⟩ := ih after
      exact ⟨rest', skips.join back feed', more⟩
    | returned _ back' feed' _ _ after =>
      obtain ⟨rest', skips, more⟩ := ih after
      exact ⟨rest', skips.joinReturn back back' feed', more⟩
  | joinReturn back ret feed =>
    obtain ⟨-, gs', rfl, after⟩ := crlf.cons_inv (by simp [back])
    exact absurd ret (after.cons_inv (by simp [ret])).1
  | @backslash g gs back first second =>
    obtain ⟨none, gs', rfl, after⟩ := crlf.cons_inv (by simp [back])
    refine ⟨g :: gs', .backslash back ?_ ?_, crlf, fun _ hg => Option.some.inj hg ▸ none⟩
    · rintro a as rfl feed
      cases after with
      | same other => exact other feed
      | feed feed' => exact first _ _ rfl feed'
      | returned _ back' =>
        rw [back'] at feed
        cases feed
    · rintro a b as rfl ⟨back', -⟩
      cases after with
      | same _ none => exact none back'
      | feed feed => exact first _ _ rfl feed
      | returned feed => exact first _ _ rfl feed
  | @text g gs text =>
    cases crlf with
    | same other none after =>
      exact ⟨_, .text text, .same other none after, fun g hg => Option.some.inj hg ▸ none⟩
    | feed feed feed' line after =>
      refine ⟨_, .text (by simp [feed']), .feed feed feed' line after, ?_⟩
      rintro _ ⟨⟩
      simp [feed']
    | returned feed back feed' _ line after =>
      refine ⟨_, .blank (by simp [back]) (.text (by simp [feed'])),
        .feed feed feed' line after, ?_⟩
      rintro _ ⟨⟩
      simp [feed']

/-- No carriage return is left in front of a line feed that ends the line. -/
theorem afterBlanks_crlf (h : Crlf gs gs') (blank : afterBlanks false gs = rest) :
    ∃ rest', afterBlanks false gs' = rest' ∧ Crlf rest rest' ∧
      ∀ g ∈ rest'.head?, g.char ≠ '\r' := by
  obtain ⟨rest', skips, more⟩ := (blank ▸ Skips.of_afterBlanks rfl gs).crlf h
  exact ⟨rest', skips.afterBlanks_eq, more⟩

theorem afterBlanks_crlf_feed (h : Crlf gs gs') (blank : afterBlanks false gs = g :: rest)
    (feed : g.char = '\n') : ∃ f rest', afterBlanks false gs' = f :: rest' ∧ f.char = '\n' ∧
      Crlf rest rest' := by
  obtain ⟨_, blank', after, stop⟩ := afterBlanks_crlf h blank
  cases after with
  | same other => exact absurd feed other
  | feed _ feed' _ after => exact ⟨_, _, blank', feed', after⟩
  | returned _ back => exact absurd back (stop _ rfl)

theorem afterBlanks_crlf_other (h : Crlf gs gs') (blank : afterBlanks false gs = g :: rest)
    (other : g.char ≠ '\n') : ∃ rest', afterBlanks false gs' = g :: rest' ∧ Crlf rest rest' := by
  obtain ⟨_, blank', after, -⟩ := afterBlanks_crlf h blank
  obtain ⟨-, rest', rfl, after'⟩ := after.cons_inv other
  exact ⟨rest', blank', after'⟩

/-! ### String literals -/

section

variable {quote : Char} {triple : Bool} {start : Position} {acc : List Char} {s : String}

/-- Where a string literal ends does not depend on the characters before it. -/
theorem stringBody_acc {r : String × List Glyph}
    (h : stringBody quote triple start finish acc gs = .ok r) (acc' : List Char) :
    ∃ s, stringBody quote triple start finish acc' gs = .ok (s, r.2) := by
  fun_induction stringBody quote triple start finish acc gs generalizing acc' with
  | case1 | case6 | case7 => cases h
  | case2 acc g closes three a b rest closing =>
    cases h
    obtain rfl := three
    exact ⟨_, stringBody_close_triple closes closing⟩
  | case3 acc g closes three a b rest other ih =>
    obtain rfl := three
    rw [stringBody_quote closes (by rintro _ _ _ ⟨⟩; exact other)]
    exact ih h _
  | case4 acc g closes three gs short ih =>
    obtain rfl := three
    rw [stringBody_quote closes fun a b more same => absurd same (short a b more)]
    exact ih h _
  | case5 acc g gs closes one =>
    cases h
    obtain rfl := Bool.eq_false_iff.2 one
    exact ⟨_, stringBody_close closes⟩
  | case8 acc g other inLine escapes e gs ih =>
    rw [stringBody_escape other escapes]
    exact ih h _
  | case9 acc g gs other inLine plain ih =>
    rw [stringBody_plain other (fun one feed => inLine (by simp [one, feed])) plain]
    exact ih h _

/-- Two closing quotes are ahead with the carriage returns only if they are ahead without them. -/
theorem Crlf.fewer (h : Crlf gs gs') (other : quote ≠ '\n')
    (fewer : ∀ a b rest, gs' = a :: b :: rest → ¬ (a.char = quote ∧ b.char = quote)) :
    ∀ a b rest, gs = a :: b :: rest → ¬ (a.char = quote ∧ b.char = quote) := by
  rintro a b rest rfl ⟨first, second⟩
  obtain ⟨-, _, rfl, after⟩ := h.cons_inv (first ▸ other)
  obtain ⟨-, more, rfl, -⟩ := after.cons_inv (second ▸ other)
  exact fewer a b more rfl ⟨first, second⟩

/-- What can be read as a string literal with the carriage returns can be read without them. -/
theorem stringBody_of_crlf {r : String × List Glyph} (feed : quote ≠ '\n') (back : quote ≠ '\r')
    (crlf : Crlf gs gs') (h : stringBody quote triple start finish acc gs' = .ok r) :
    ∃ s rest, stringBody quote triple start finish acc gs = .ok (s, rest) ∧ Crlf rest r.2 := by
  fun_induction stringBody quote triple start finish acc gs' generalizing gs with
  | case1 | case6 | case7 => cases h
  | case2 acc g closes three a b rest closing =>
    cases h
    obtain rfl := three
    obtain ⟨_, rfl, after⟩ := crlf.of_cons (closes ▸ feed) (closes ▸ back)
    obtain ⟨_, rfl, after'⟩ := after.of_cons (closing.1 ▸ feed) (closing.1 ▸ back)
    obtain ⟨rest', rfl, last⟩ := after'.of_cons (closing.2 ▸ feed) (closing.2 ▸ back)
    exact ⟨_, rest', stringBody_close_triple closes closing, last⟩
  | case3 acc g closes three a b rest other ih =>
    obtain rfl := three
    obtain ⟨gs, rfl, after⟩ := crlf.of_cons (closes ▸ feed) (closes ▸ back)
    rw [stringBody_quote closes (after.fewer feed (by rintro _ _ _ ⟨⟩; exact other))]
    exact ih after h
  | case4 acc g closes three gs' short ih =>
    obtain rfl := three
    obtain ⟨gs, rfl, after⟩ := crlf.of_cons (closes ▸ feed) (closes ▸ back)
    have fewer := after.fewer feed fun a b more same => absurd same (short a b more)
    rw [stringBody_quote closes fewer]
    exact ih after h
  | case5 acc g gs' closes one =>
    cases h
    obtain rfl := Bool.eq_false_iff.2 one
    obtain ⟨gs, rfl, after⟩ := crlf.of_cons (closes ▸ feed) (closes ▸ back)
    exact ⟨_, gs, stringBody_close closes, after⟩
  | case8 acc g other inLine escapes e gs' ih =>
    obtain ⟨gs, rfl, after⟩ := crlf.of_cons (by simp [escapes]) (by simp [escapes])
    by_cases returns : e.char = '\r'
    · -- the line feed stays ahead: in a triple-quoted literal it is one of its characters
      obtain ⟨after', k, gs, rfl, feeds⟩ := after.of_return returns
      have other' : k.char ≠ quote := feeds ▸ feed.symm
      obtain ⟨s, rest, read, crlf'⟩ := ih after' h
      rw [stringBody_escape other escapes]
      cases triple with
      | false =>
        rw [stringBody_feed other' feeds] at read
        cases read
      | true =>
        rw [stringBody_plain other' (by simp) (by simp [feeds])] at read
        obtain ⟨s, read⟩ := stringBody_acc read ((unescape k.char).reverse ++ acc)
        exact ⟨s, rest, read, crlf'⟩
    by_cases feeds : e.char = '\n'
    · obtain ⟨k, gs, rfl, same, after'⟩ := after.of_feed feeds
      rw [stringBody_escape other escapes, same, ← feeds]
      exact ih after' h
    · obtain ⟨gs, rfl, after'⟩ := after.of_cons feeds returns
      rw [stringBody_escape other escapes]
      exact ih after' h
  | case9 acc g gs' other inLine plain ih =>
    have inLine (one : triple = false) (feed : g.char = '\n') : False :=
      inLine (by simp [one, feed])
    by_cases returns : g.char = '\r'
    · obtain ⟨s, rest, read, crlf⟩ := ih (crlf.of_return returns).1 h
      obtain ⟨s, read⟩ := stringBody_acc read acc
      exact ⟨s, rest, read, crlf⟩
    by_cases feeds : g.char = '\n'
    · obtain ⟨k, gs, rfl, same, after⟩ := crlf.of_feed feeds
      rw [← same] at feeds
      rw [feeds] at other inLine plain ih h
      rw [stringBody_plain other inLine plain]
      exact ih after h
    · obtain ⟨gs, rfl, after⟩ := crlf.of_cons feeds returns
      rw [stringBody_plain other inLine plain]
      exact ih after h

theorem stringLiteral_of_crlf {r : String × List Glyph} (feed : quote ≠ '\n')
    (back : quote ≠ '\r') (crlf : Crlf gs gs') (h : stringLiteral quote start finish gs' = .ok r) :
    ∃ s rest, stringLiteral quote start finish gs = .ok (s, rest) ∧ Crlf rest r.2 := by
  by_cases long : ∃ a b more, gs' = a :: b :: more ∧ a.char = quote ∧ b.char = quote
  · obtain ⟨a, b, more, rfl, three⟩ := long
    obtain ⟨_, rfl, after⟩ := crlf.of_cons (three.1 ▸ feed) (three.1 ▸ back)
    obtain ⟨gs, rfl, after'⟩ := after.of_cons (three.2 ▸ feed) (three.2 ▸ back)
    rw [stringLiteral_triple three] at h ⊢
    exact stringBody_of_crlf feed back after' h
  · have fewer : ∀ a b more, gs' = a :: b :: more → ¬ (a.char = quote ∧ b.char = quote) :=
      fun a b more same three => long ⟨a, b, more, same, three⟩
    rw [stringLiteral_single fewer] at h
    rw [stringLiteral_single (crlf.fewer feed fewer)]
    exact stringBody_of_crlf feed back crlf h

/-- A string literal in which no line ends is the same with the carriage returns. -/
theorem stringLiteral_crlf (feed : quote ≠ '\n') (back : quote ≠ '\r')
    (crlf : Crlf (taken ++ rest) gs') (inLine : ∀ g ∈ taken, g.char ≠ '\n')
    (h : stringLiteral quote start finish (taken ++ rest) = .ok (s, rest)) :
    ∃ rest', stringLiteral quote start finish gs' = .ok (s, rest') ∧ Crlf rest rest' := by
  obtain ⟨rest', rfl, after⟩ := crlf.append_inv inLine
  refine ⟨rest', stringLiteral_append h rfl finish fun next => ?_, after⟩
  cases after with
  | nil | same => exact next
  | feed _ feed' => exact fun b hb => Option.some.inj hb ▸ feed' ▸ feed.symm
  | returned _ back' => exact fun b hb => Option.some.inj hb ▸ back' ▸ back.symm

end

/-! ### Tokens -/

section

variable {depth : Nat} {r r' : Read}

theorem quote_ne (quoted : g.char = '"' ∨ g.char = '\x27') : g.char ≠ '\n' ∧ g.char ≠ '\r' := by
  rcases quoted with quoted | quoted
  · rw [quoted]
    decide
  · rw [quoted]
    decide

/-- What is no string literal is read alike. -/
theorem read_crlf_of_other (feed : g.char ≠ '\n') (other : ¬ (g.char = '"' ∨ g.char = '\x27'))
    (crlf : Crlf gs gs') :
    (∃ e, read finish depth g gs = .error e ∧ read finish depth g gs' = .error e) ∨
    ∃ r rest', read finish depth g gs = .ok r ∧
      read finish depth g gs' = .ok ⟨r.kind, r.depth, rest'⟩ ∧ Crlf r.rest rest' := by
  obtain ⟨line, bs, rfl, stop, inLine⟩ := exists_line gs
  obtain ⟨bs', rfl, after⟩ := crlf.append_inv fun g hg => (inLine g hg).1
  rw [read_append line other stop, read_append line other (after.atLineEnd stop)]
  cases alone : read finish depth g line with
  | error e => exact .inl ⟨e, rfl, rfl⟩
  | ok r =>
    refine .inr ⟨_, _, rfl, rfl, after.append fun g hg => inLine g ?_⟩
    exact (read_suffix feed alone).subset hg

theorem read_of_crlf (feed : g.char ≠ '\n') (crlf : Crlf gs gs')
    (h : read finish depth g gs' = .ok r') :
    ∃ r, read finish depth g gs = .ok r ∧ r'.depth = r.depth ∧ Crlf r.rest r'.rest := by
  by_cases quoted : g.char = '"' ∨ g.char = '\x27'
  · obtain ⟨s', rest', literal, rfl⟩ := (read_quoted_eq_ok quoted).1 h
    obtain ⟨s, rest, literal', after⟩ :=
      stringLiteral_of_crlf (quote_ne quoted).1 (quote_ne quoted).2 crlf literal
    exact ⟨_, (read_quoted_eq_ok quoted).2 ⟨s, rest, literal', rfl⟩, rfl, after⟩
  · rcases read_crlf_of_other feed quoted crlf with ⟨e, -, failed⟩ | ⟨r, rest', read, read', after⟩
    · cases h.symm.trans failed
    · cases h.symm.trans read'
      exact ⟨r, read, rfl, after⟩

theorem read_crlf (feed : g.char ≠ '\n') (crlf : Crlf gs gs') (h : read finish depth g gs = .ok r)
    (inLine : (∃ s, r.kind = .str s) → ∀ taken, gs = taken ++ r.rest → ∀ g ∈ taken, g.char ≠ '\n') :
    ∃ rest', read finish depth g gs' = .ok ⟨r.kind, r.depth, rest'⟩ ∧ Crlf r.rest rest' := by
  by_cases quoted : g.char = '"' ∨ g.char = '\x27'
  · obtain ⟨s, rest, literal, rfl⟩ := (read_quoted_eq_ok quoted).1 h
    obtain ⟨taken, rfl⟩ := (closes_stringLiteral feed literal).suffix
    obtain ⟨rest', literal', after⟩ := stringLiteral_crlf (quote_ne quoted).1 (quote_ne quoted).2
      crlf (inLine ⟨s, rfl⟩ taken rfl) literal
    exact ⟨rest', (read_quoted_eq_ok quoted).2 ⟨s, rest', literal', rfl⟩, after⟩
  · rcases read_crlf_of_other feed quoted crlf with ⟨e, failed, -⟩ | ⟨r, rest', read, read', after⟩
    · cases h.symm.trans failed
    · cases h.symm.trans read
      exact ⟨rest', read', after⟩

end

/-! ### Steps -/

/-- A string literal stands on one line. -/
def InLine (t : Token) : Prop := ∀ s, t.kind = .str s → t.endLine = t.pos.line

/-- The tokens are of one kind, and stand in one place unless they are layout. -/
structure Matches (t u : Token) : Prop where
  kind : u.kind = t.kind
  pos : t.kind.isLayout = false → u.pos = t.pos
  endLine : t.kind.isLayout = false → u.endLine = t.endLine

theorem Matches.refl (t : Token) : t.Matches t := ⟨rfl, fun _ => rfl, fun _ => rfl⟩

theorem here_of_append {p : Position} {cs : List Char} (split : Glyph.ofChars p cs = as ++ rest) :
    Glyph.here (p.afterAll cs) rest = p.afterAll (as.map Glyph.char) := by
  have spans : Spans (Glyph.ofChars p cs) (as.map Glyph.char) rest := ⟨as, split, rfl⟩
  obtain ⟨cs', rfl, rfl⟩ := Glyph.exists_of_spans spans
  rw [Position.afterAll_append, Glyph.here_ofChars]

/-- No line ends between two places on one line. -/
theorem feedless_of_here {cs : List Char} (suffix : taken ++ rest <:+ Glyph.ofChars .start cs)
    (line : (Glyph.here (Position.start.afterAll cs) rest).line ≤
      (Glyph.here (Position.start.afterAll cs) (taken ++ rest)).line) :
    ∀ g ∈ taken, g.char ≠ '\n' := by
  obtain ⟨before, split⟩ := suffix
  rw [here_of_append split.symm, here_of_append ((List.append_assoc _ _ _).trans split).symm,
    List.map_append, Position.afterAll_append, Position.line_afterAll (_ : Position)] at line
  intro g hg feed
  have some := List.count_pos_iff.2 (feed ▸ List.mem_map_of_mem (f := Glyph.char) hg)
  omega

variable {s s' : Stage} {ts : List Token} {cs : List Char}

/-- With the carriage returns the scan takes the same step, or two steps where a line is blank. Only
at a string literal over several lines, it may read other characters or stop. -/
theorem Step.crlf (h : Step (Position.start.afterAll cs) s ts s') (crlf : Crlf s.ahead gs')
    (within : s.ahead <:+ Glyph.ofChars .start cs) :
    (∃ us rest', Leads (Position.start.afterAll cs) ⟨s.columns, s.spot, gs'⟩ us
        ⟨s'.columns, s'.spot, rest'⟩ ∧ Crlf s'.ahead rest' ∧
      ((∀ t ∈ ts, t.InLine) → List.Forall₂ Matches ts us)) ∨
    (¬ ∀ t ∈ ts, t.InLine) ∧
      ∃ e, Stops (Position.start.afterAll cs) ⟨s.columns, s.spot, gs'⟩ (.error e) := by
  cases h with
  | @blank columns column g gs rest blank feed =>
    obtain ⟨_, blank', after⟩ := margin_crlf crlf blank
    refine .inl ⟨[], ?_⟩
    cases after with
    | same other back => exact absurd feed (not_or.2 ⟨other, back⟩)
    | feed _ feed' _ after =>
      exact ⟨_, .single (.blank blank' (.inl feed')), after, fun _ => .nil⟩
    | @returned _ r f _ rest' _ back feed' _ _ after =>
      have again : margin 0 (f :: rest') = (0, f :: rest') := by simp [margin, feed']
      exact ⟨rest', (Leads.single (.blank blank' (.inr back))).trans
        (.single (.blank again (.inl feed'))), after, fun _ => .nil⟩
  | comment blank hash =>
    obtain ⟨_, blank', after⟩ := margin_crlf crlf blank
    obtain ⟨-, rest', rfl, after'⟩ := after.cons_inv (by simp [hash])
    exact .inl ⟨[], _, .single (.comment blank' hash), (afterComment_crlf after').1, fun _ => .nil⟩
  | begins blank text indented =>
    obtain ⟨_, blank', after⟩ := margin_crlf crlf blank
    obtain ⟨-, rest', rfl, -⟩ := after.cons_inv (not_or.1 text.1).1
    exact .inl ⟨_, _, .single (.begins blank' text indented), after,
      fun _ => List.forall₂_same.2 fun t _ => .refl t⟩
  | join blank feed inside =>
    obtain ⟨f, rest', blank', feed', after⟩ := afterBlanks_crlf_feed crlf blank feed
    exact .inl ⟨[], rest', .single (.join blank' feed' inside), after, fun _ => .nil⟩
  | @ends columns isOpen g gs rest blank feed =>
    obtain ⟨f, rest', blank', feed', after⟩ := afterBlanks_crlf_feed crlf blank feed
    refine .inl ⟨_, rest', .single (.ends blank' feed'), after, fun _ => ?_⟩
    cases isOpen with
    | false => exact .nil
    | true =>
      refine .cons ⟨rfl, ?_, ?_⟩ .nil
      · rintro ⟨⟩
      · rintro ⟨⟩
  | @token columns depth isOpen g gs rest r blank other found =>
    obtain ⟨rest', blank', after⟩ := afterBlanks_crlf_other crlf blank other
    by_cases inLine : ∀ t ∈ [tokenAt (Position.start.afterAll cs) g r], t.InLine
    · have feedless : (∃ str, r.kind = .str str) → ∀ taken, rest = taken ++ r.rest →
          ∀ g ∈ taken, g.char ≠ '\n' := by
        rintro ⟨str, kind⟩ taken split
        have line : max _ g.pos.line = g.pos.line := inLine _ List.mem_cons_self str kind
        have suffix := (suffix_of_blanks blank).trans within
        rw [split, ← List.cons_append] at suffix
        have all := feedless_of_here suffix (max_eq_right_iff.1 line)
        exact (List.forall_mem_cons.1 all).2
      obtain ⟨left, found', after'⟩ := read_crlf other after found feedless
      refine .inl ⟨_, left, .single (.token blank' other found'), after', fun _ => ?_⟩
      refine .cons ⟨rfl, fun _ => rfl, fun _ => ?_⟩ .nil
      exact congrArg (max · g.pos.line) after'.here_line
    · cases found' : read (Position.start.afterAll cs) depth g rest' with
      | error e => exact .inr ⟨inLine, e, .unread blank' other found'⟩
      | ok r' =>
        obtain ⟨_, found'', deep, after'⟩ := read_of_crlf other after found'
        cases found.symm.trans found''
        rw [← deep]
        refine .inl ⟨_, _, .single (.token blank' other found'), after', fun all => ?_⟩
        exact absurd all inLine

theorem Leads.crlf (h : Leads (Position.start.afterAll cs) s ts s') (crlf : Crlf s.ahead gs')
    (within : s.ahead <:+ Glyph.ofChars .start cs) :
    (∃ us rest', Leads (Position.start.afterAll cs) ⟨s.columns, s.spot, gs'⟩ us
        ⟨s'.columns, s'.spot, rest'⟩ ∧ Crlf s'.ahead rest' ∧
      ((∀ t ∈ ts, t.InLine) → List.Forall₂ Matches ts us)) ∨
    (¬ ∀ t ∈ ts, t.InLine) ∧
      ∃ e, (Stage.mk s.columns s.spot gs').scan (Position.start.afterAll cs) = .error e := by
  induction h with
  | refl => exact .inl ⟨[], gs', .refl, crlf, fun _ => .nil⟩
  | @snoc mid last ts us leads step ih =>
    rcases ih with ⟨ts', rest', leads', crlf', alike⟩ | ⟨long, failed⟩
    · rcases step.crlf crlf' (leads.suffix.trans within) with
        ⟨us', rest'', step', crlf'', alike'⟩ | ⟨long, e, stops⟩
      · refine .inl ⟨ts' ++ us', rest'', leads'.trans step', crlf'', fun all => ?_⟩
        have ⟨first, second⟩ := List.forall_mem_append.1 all
        exact List.rel_append (alike first) (alike' second)
      · refine .inr ⟨fun all => long (List.forall_mem_append.1 all).2, e, ?_⟩
        rw [leads'.scan_eq, stops.scan_eq]
        rfl
    · exact .inr ⟨fun all => long (List.forall_mem_append.1 all).1, failed⟩

theorem Stops.crlf {r : Except Error (List Token)} (h : Stops finish s r)
    (crlf : Crlf s.ahead gs') :
    Stops finish ⟨s.columns, s.spot, gs'⟩ r ∨
    ∃ e e', r = .error e ∧ Stops finish ⟨s.columns, s.spot, gs'⟩ (.error e') := by
  cases h with
  | afterLine blank =>
    obtain ⟨_, blank', after⟩ := margin_crlf crlf blank
    cases after
    exact .inl (.afterLine blank')
  | inLine blank =>
    obtain ⟨_, blank', after, -⟩ := afterBlanks_crlf crlf blank
    cases after
    exact .inl (.inLine blank')
  | unaligned blank text failed =>
    obtain ⟨_, blank', after⟩ := margin_crlf crlf blank
    obtain ⟨-, rest', rfl, -⟩ := after.cons_inv (not_or.1 text.1).1
    exact .inl (.unaligned blank' text failed)
  | @unread columns depth isOpen g gs rest e blank other failed =>
    obtain ⟨rest', blank', after⟩ := afterBlanks_crlf_other crlf blank other
    cases found : read finish depth g rest' with
    | error e' => exact .inr ⟨e, e', rfl, .unread blank' other found⟩
    | ok r =>
      obtain ⟨_, read, -⟩ := read_of_crlf other after found
      cases failed.symm.trans read

end Token

open Token

/-- With a carriage return before each line feed, a text can be read as tokens only if it can be
without them; and if it can, and each string literal stands on one line, the tokens are the same. -/
theorem tokenize_withReturns {cs : List Char} (none : '\r' ∉ cs) :
    (∀ e, tokenize (String.ofList cs) = .error e →
      ∃ e', tokenize (String.ofList (withReturns cs)) = .error e') ∧
    ∀ ts, tokenize (String.ofList cs) = .ok ts → (∀ t ∈ ts, t.InLine) →
      ∃ us, tokenize (String.ofList (withReturns cs)) = .ok us ∧
        List.Forall₂ Token.Matches ts us := by
  obtain ⟨crlf, last⟩ := crlf_ofChars (p := .start) none
  obtain ⟨first, s, r, leads, stops⟩ :=
    exists_stops (Position.start.afterAll cs) (.start .start cs)
  have whole : tokenize (String.ofList cs) = r.map (first ++ ·) := by
    rw [tokenize_eq, String.toList_ofList, leads.scan_eq, stops.scan_eq]
  have whole' : tokenize (String.ofList (withReturns cs)) =
      (Stage.start .start (withReturns cs)).scan (Position.start.afterAll cs) := by
    rw [tokenize_eq, String.toList_ofList, last]
  rw [whole, whole']
  rcases leads.crlf crlf (List.suffix_refl _) with
    ⟨us, rest', leads', after, alike⟩ | ⟨long, failed⟩
  · have again : (Stage.start .start (withReturns cs)).scan (Position.start.afterAll cs) = _ :=
      leads'.scan_eq
    rcases stops.crlf after with stops' | ⟨e, e', rfl, stops'⟩
    · rw [again, stops'.scan_eq]
      cases r with
      | error e => exact ⟨fun _ _ => ⟨e, rfl⟩, nofun⟩
      | ok vs =>
        refine ⟨nofun, ?_⟩
        rintro _ ⟨⟩ all
        exact ⟨us ++ vs, rfl, List.rel_append (alike (List.forall_mem_append.1 all).1)
          (List.forall₂_same.2 fun t _ => .refl t)⟩
    · rw [again, stops'.scan_eq]
      exact ⟨fun _ _ => ⟨e', rfl⟩, nofun⟩
  · refine ⟨fun _ _ => failed, fun ts read all => absurd ?_ long⟩
    cases r with
    | error e => cases read
    | ok vs =>
      cases read
      exact (List.forall_mem_append.1 all).1

theorem tokenize_withReturns_literal :
    let ts : List Token := [⟨.str "a", ⟨1, 1⟩, 1⟩, ⟨.mark .newline, ⟨1, 4⟩, 2⟩,
      ⟨.mark .endOfFile, ⟨2, 1⟩, 2⟩]
    tokenize "'a'\n" = .ok ts ∧
      ∃ us, tokenize "'a'\r\n" = .ok us ∧ List.Forall₂ Token.Matches ts us := by
  intro ts
  have none : '\r' ∉ ['\x27', 'a', '\x27', '\n'] := by decide
  have tokens : tokenize "'a'\n" = .ok ts := by cbv
  have inLine : ∀ t ∈ ts, t.InLine := by
    intro t ht s kind
    simp only [ts, List.mem_cons, List.not_mem_nil, or_false] at ht
    rcases ht with rfl | rfl | rfl
    · rfl
    · cases kind
    · cases kind
  exact ⟨tokens, (tokenize_withReturns none).2 ts tokens inLine⟩

/-- A line feed after a backslash joins two lines of a string literal; with the carriage return in
front of it, it ends the line, and the literal is not closed. -/
theorem withReturns_escaped :
    let source := ['x', ' ', '=', ' ', '\x27', 'a', '\\', '\n', 'b', '\x27', '\n']
    '\r' ∉ source ∧
    tokenize (String.ofList source) = .ok [⟨.name "x", ⟨1, 1⟩, 1⟩,
      ⟨.mark (.symbol .assign), ⟨1, 3⟩, 1⟩, ⟨.str "ab", ⟨1, 5⟩, 2⟩, ⟨.mark .newline, ⟨2, 3⟩, 3⟩,
      ⟨.mark .endOfFile, ⟨3, 1⟩, 3⟩] ∧
    tokenize (String.ofList (withReturns source)) = .error ⟨.unterminatedString, ⟨1, 5⟩⟩ := by
  exact ⟨by decide, by cbv, by cbv⟩

end Footprint
