import Footprint.Proofs.Laminar

set_option autoImplicit false

/-!
Where the definitions of a script stand. A parser of statements stops where a logical line has
ended, so what is read after it stands on later lines; a definition ends on the last line that has
been passed. The span of a definition holds all lines that are told for what is in it, and spans lie
within the source.
-/

namespace Footprint

namespace Parser

open Token

/-! ### Headers -/

section

variable (n first : Nat)

theorem between_param {q : Param} {last : Nat} (before : first ≤ q.pos.line)
    (after : q.pos.line ≤ last) (ha : ∀ e ∈ q.annotation, Between first last e)
    (hdefault : ∀ e ∈ q.default, Between first last e) : (Node.param q).Between first last := by
  refine Node.between_iff.2 ⟨fun p hp => ?_, ?_⟩
  · cases hp
    exact ⟨before, after⟩
  · exact List.forall_mem_append.2 ⟨Node.between_option ha, Node.between_option hdefault⟩

theorem between_withItem {i : WithItem} {last : Nat} (context : Between first last i.context)
    (target : ∀ e ∈ i.target, Between first last e) : (Node.withItem i).Between first last :=
  Node.between_iff.2 ⟨fun _ hp => absurd hp (Option.not_mem_none _),
    List.forall_mem_cons.2 ⟨context, Node.between_option target⟩⟩

theorem places_parameters (before : List Param) :
    Places first AnyKind (parameters before n) fun last qs =>
      ∀ q ∈ qs, (Node.param q).Between first last := by
  induction n generalizing first before with
  | zero => exact .failHere
  | succ n ih =>
    unfold parameters
    refine .skip .isAt fun ended => ?_
    split
    · exact .pure fun _ _ h => absurd h List.not_mem_nil
    · refine .here fun p le => .bind .identifier fun name => ?_
      split
      · exact .fail
      · refine .bind (.following ((allPlace n).test _)) fun a => ?_
        refine .bind (.following ((allPlace n).test _)) fun default => ?_
        have one {last : Nat} (hdefault : ∀ e ∈ default, Between p.line last e)
            (ha : ∀ e ∈ a, Between p.line last e)
            (named : name ≠ topName ∧ p.line ≤ last) :
            (Node.param ⟨name, a, default, p⟩).Between first last :=
          (between_param p.line (Nat.le_refl _) named.2 ha hdefault).mono le
            (Nat.le_refl _)
        split
        · exact .fail
        · refine .skip .moves_accept fun more => ?_
          split
          · refine .bind (ih _ _) fun others => .pure fun _ hothers hdefault ha named => ?_
            refine List.forall_mem_cons.2 ⟨one hdefault ha named, fun q hq => ?_⟩
            exact (hothers q hq).mono le (Nat.le_refl _)
          · exact .pure fun _ hdefault ha named =>
              List.forall_mem_singleton.2 (one hdefault ha named)

theorem places_decorators : Places first AnyKind (decorators n) (AllBetween first) := by
  induction n with
  | zero => exact .failHere
  | succ n ih =>
    unfold decorators
    refine .skip .moves_accept fun more => ?_
    split
    · refine .bind ((allPlace n).test first) fun d => .skip .moves_expect fun _ => ?_
      exact .bind ih fun ds => .pure fun _ hds hd => .cons hd hds
    · exact .pure fun _ => .none

theorem places_withItems : Places first AnyKind (withItems n) fun last is =>
    ∀ i ∈ is, (Node.withItem i).Between first last := by
  induction n with
  | zero => exact .failHere
  | succ n ih =>
    have target : Places first AnyKind (do
        let target ← arith n
        checkTargets .cannotAssign [target]
        return target) (Between first) :=
      .bind ((allPlace n).arith first) fun target =>
        .skip (moves_checkTargets first _ _) fun _ => .pure fun _ h => h
    unfold withItems
    refine .bind ((allPlace n).test first) fun context => .bind (.following target) fun target => ?_
    refine .skip .moves_accept fun more => ?_
    split
    · refine .bind ih fun others => .pure fun _ hothers htarget hcontext => ?_
      exact List.forall_mem_cons.2 ⟨between_withItem first hcontext htarget, hothers⟩
    · exact .pure fun _ htarget hcontext =>
        List.forall_mem_singleton.2 (between_withItem first hcontext htarget)

theorem places_caught : Places first AnyKind (caught n) fun last r =>
    ∀ e ∈ r.1, Between first last e := by
  unfold caught
  refine .skip .isAt fun ended => ?_
  split
  · exact .pure fun _ _ h => absurd h (Option.not_mem_none _)
  · refine .bind ((allPlace n).test first) fun kind => ?_
    refine .skip (Places.following .identifier).moves fun name => .pure fun _ hkind e he => ?_
    cases he
    exact hkind

theorem places_baseClasses : Places first AnyKind (baseClasses n) (AllBetween first) := by
  unfold baseClasses
  refine .skip .moves_accept fun isOpen => ?_
  split
  · refine .bind ((allPlace n).testsUntil first _) fun bases => ?_
    exact .skip .moves_expect fun _ => .pure fun _ h => h
  · exact .pure fun _ => .none

theorem places_moreTargets : Places first AnyKind (moreTargets n) (AllBetween first) := by
  induction n with
  | zero => exact .failHere
  | succ n ih =>
    unfold moreTargets
    refine .skip .moves_accept fun comma => ?_
    split
    · refine .skip .isAtExpression fun isTarget => ?_
      split
      · refine .bind ((allPlace n).arith first) fun e => .bind ih fun es => ?_
        exact .pure fun _ hes he => .cons he hes
      · exact .pure fun _ => .none
    · exact .pure fun _ => .none

theorem places_targetList : Places first AnyKind (targetList n) (Between first) := by
  unfold targetList
  refine .bind ((allPlace n).arith first) fun e => .skip .isAt fun comma => ?_
  split
  · refine .bind (places_moreTargets n first) fun es => .pure fun _ hes he => ?_
    exact he.of_pos rfl (.cons he hes)
  · exact .pure fun _ he => he

end

/-! ### Between logical lines -/

namespace Cursor

/-- A logical line has ended: on the last line that has been passed, only the ends of blocks and of
the text are ahead. -/
def Fresh (c : Cursor) : Prop :=
  c.front.kind = .mark .endOfFile ∨ ∀ t ∈ c.ahead, ¬t.EndsBlock → c.lastLine < t.pos.line

/-- The token ahead stands on the line or after it. -/
def From (first : Nat) (ahead : Kind → Prop) (c : Cursor) : Prop :=
  first ≤ c.front.pos.line ∧ ahead c.front.kind

/-- A logical line has ended, and `l` is the last line that has been passed. -/
def After (l : Nat) (c : Cursor) : Prop := c.Fresh ∧ c.lastLine = l

/-- A token has been passed on the line or after it. -/
def Past (first : Nat) (c : Cursor) : Prop := first ≤ c.lastLine

variable {lines l : Nat} {c : Cursor} {m : Mark}

theorem Fresh.next (fresh : c.Fresh) (layout : c.front.kind.isLayout = true) :
    c.next.Fresh ∧ c.next.lastLine = c.lastLine := by
  obtain ⟨front, rest, lastLine⟩ := c
  cases rest with
  | nil => exact ⟨fresh, rfl⟩
  | cons t rest =>
    unfold Cursor.next
    dsimp only at layout ⊢
    split
    · exact ⟨fresh, rfl⟩
    · next goes =>
      refine ⟨.inr fun u hu => ?_, rfl⟩
      exact (fresh.resolve_left fun ended => goes (Kind.isMark_iff.2 ended)) u
        (List.mem_cons_of_mem _ hu)

/-- The end of a logical line is passed. -/
theorem Ordered.fresh_next (h : c.Ordered lines) (newline : c.front.kind = .mark .newline) :
    c.next.Fresh ∧ c.next.lastLine = c.lastLine := by
  obtain ⟨front, rest, lastLine⟩ := c
  dsimp only at newline
  have other : front.kind ≠ .mark .endOfFile := by
    rw [newline]
    exact nofun
  cases rest with
  | nil =>
    obtain ⟨passed, final, split, -⟩ := (h.tokens.tail other).ended
    exact absurd split (by simp)
  | cons t rest =>
    have passed : (⟨front, t :: rest, lastLine⟩ : Cursor).next = ⟨t, rest, lastLine⟩ := by
      unfold Cursor.next
      dsimp only
      rw [newline]
      rfl
    rw [passed]
    refine ⟨.inr fun u hu goes => ?_, rfl⟩
    have breaks : front.Breaks u := (List.pairwise_cons.1 h.tokens.breaks).1 u hu
    exact Nat.lt_of_le_of_lt h.before (breaks newline goes)

theorem After.lt_front (h : c.After l) (goes : ¬c.front.EndsBlock) : l < c.front.pos.line := by
  obtain ⟨fresh, rfl⟩ := h
  exact fresh.resolve_left (fun ended => goes (.inr ended)) c.front List.mem_cons_self goes

theorem not_endsBlock (found : c.front.kind.isMark m = true) (other : m.isLayout = false) :
    ¬c.front.EndsBlock := by
  have kind := Kind.isMark_iff.1 found
  rintro (ends | ends)
  · rw [Kind.mark.inj (kind.symm.trans ends)] at other
    cases other
  · rw [Kind.mark.inj (kind.symm.trans ends)] at other
    cases other

end Cursor

open Cursor

/-- From the cursors at hand, the parser reads tokens in order up to the end of a logical line; what
it gives is in a relation with the last line of what has been passed. -/
def Lays {α : Type} (start : Cursor → Prop) (x : Numbering α) (Q : Nat → α → Prop) : Prop :=
  ∀ ⦃lines : Nat⦄ ⦃code : CodeId⦄ ⦃c c' : Cursor⦄ ⦃r : α × CodeId⦄, c.Ordered lines → start c →
    x code c = .ok (r, c') →
    c'.Ordered lines ∧ c'.Fresh ∧ c.lastLine ≤ c'.lastLine ∧ Q c'.lastLine r.1

theorem ok_of_lift {α β : Type} {x : Parse β} {f : β → Numbering α} {code : CodeId}
    {c c' : Cursor} {r : α × CodeId} (read : (liftM x >>= f) code c = .ok (r, c')) :
    ∃ b c₁, x c = .ok (b, c₁) ∧ f b code c₁ = .ok (r, c') := by
  obtain ⟨r₁, hr₁, read⟩ := ok_of_bind read
  obtain ⟨r₂, hr₂, moved⟩ := ok_of_bind hr₁
  cases moved
  exact ⟨r₂.1, r₂.2, hr₂, read⟩

namespace Lays

variable {α β : Type} {start start' : Cursor → Prop} {first l : Nat} {K : Kind → Prop}
  {Q : Nat → α → Prop}

theorem imp {Q' : Nat → α → Prop} {x : Numbering α} (h : Lays start x Q)
    (weaker : ∀ last a, Q last a → Q' last a) : Lays start x Q' := by
  intro lines code c c' r hc hs read
  obtain ⟨hc', fresh, le, hQ⟩ := h hc hs read
  exact ⟨hc', fresh, le, weaker _ _ hQ⟩

theorem restrict {x : Numbering α} (h : Lays start' x Q)
    (stronger : ∀ {lines c}, c.Ordered lines → start c → start' c) : Lays start x Q :=
  fun _ _ _ _ _ hc hs read => h hc (stronger hc hs) read

theorem anyhow {x : Numbering α} (h : Lays (From first AnyKind) x Q) : Lays (From first K) x Q :=
  h.restrict fun _ hs => ⟨hs.1, trivial⟩

theorem regardless {p : Nat → Prop} {x : Numbering α} (h : Lays start x Q) :
    Lays start x fun last a => p last → Q last a := h.imp fun _ _ h _ => h

/-- The last line that is passed is not before the one after which the parser begins. -/
theorem known {x : Numbering α} (h : Lays (After l) x Q) :
    Lays (After l) x fun last a => l ≤ last ∧ Q last a := by
  intro lines code c c' r hc hs read
  obtain ⟨hc', fresh, le, hQ⟩ := h hc hs read
  exact ⟨hc', fresh, le, hs.2 ▸ le, hQ⟩

theorem failHere {f : Fault} : Lays start (liftM (Parser.failHere f : Parse α)) Q := by
  intro lines code c c' r _ _ read
  cases read

theorem failFound {f : Kind → Fault} : Lays start (liftM (Parser.failFound f : Parse α)) Q := by
  intro lines code c c' r _ _ read
  cases read

theorem pure {a : α} (h : Q l a) : Lays (After l) (pure a) Q := by
  rintro lines code c c' r hc ⟨fresh, rfl⟩ read
  cases read
  exact ⟨hc, fresh, Nat.le_refl _, h⟩

/-- What goes on within a logical line. -/
theorem after {P : Nat → β → Prop} {x : Parse β} {f : β → Numbering α} (hx : Places first K x P)
    (hf : ∀ b, Lays (From first AnyKind) (f b) fun last a => P last b → Q last a) :
    Lays (From first K) (liftM x >>= f) Q := by
  intro lines code c c' r hc hs read
  obtain ⟨b, c₁, hb, read⟩ := ok_of_lift read
  obtain ⟨hc₁, hfirst, le, hP⟩ := hx hc hs.1 hs.2 hb
  obtain ⟨hc', fresh, le', hQ⟩ := hf b hc₁ ⟨hfirst, trivial⟩ read
  exact ⟨hc', fresh, Nat.le_trans le le', hQ (hP _ le')⟩

theorem skip {x : Parse β} {f : β → Numbering α} (hx : Moves first K x)
    (hf : ∀ b, Lays (From first AnyKind) (f b) Q) : Lays (From first K) (liftM x >>= f) Q :=
  after hx fun b => (hf b).imp fun _ _ h _ => h

/-- What goes on after a logical line. -/
theorem followed {P : Nat → β → Prop} {x : Numbering β} {f : β → Numbering α}
    (hx : Lays start x P)
    (hf : ∀ b l, P l b → Lays (After l) (f b) fun last a => l ≤ last → Q last a) :
    Lays start (x >>= f) Q := by
  intro lines code c c' r hc hs read
  obtain ⟨r₁, hr₁, read⟩ := ok_of_bind read
  obtain ⟨hc₁, fresh₁, le, hP⟩ := hx hc hs hr₁
  obtain ⟨hc', fresh, le', hQ⟩ := hf r₁.1.1 _ hP hc₁ ⟨fresh₁, rfl⟩ read
  exact ⟨hc', fresh, Nat.le_trans le le', hQ le'⟩

/-- What goes on after a logical line that has a header. -/
theorem headed {γ : Type} {P : Nat → β → Prop} {R : Nat → γ → Prop} {x : Parse β}
    {y : β → Numbering γ} {f : β → γ → Numbering α} (hx : Places first K x P)
    (hy : ∀ b, Lays (From first AnyKind) (y b) R)
    (hf : ∀ b d l, P l b → R l d → Lays (After l) (f b d) fun last a => l ≤ last → Q last a) :
    Lays (From first K) (do
      let b ← x
      let d ← y b
      f b d) Q := by
  intro lines code c c' r hc hs read
  obtain ⟨b, c₁, hb, read⟩ := ok_of_lift read
  obtain ⟨hc₁, hfirst, le, hP⟩ := hx hc hs.1 hs.2 hb
  obtain ⟨r₂, hr₂, read⟩ := ok_of_bind read
  obtain ⟨hc₂, fresh₂, le₂, hR⟩ := hy b hc₁ ⟨hfirst, trivial⟩ hr₂
  obtain ⟨hc', fresh, le', hQ⟩ := hf b r₂.1.1 _ (hP _ le₂) hR hc₂ ⟨fresh₂, rfl⟩ read
  exact ⟨hc', fresh, Nat.le_trans (Nat.le_trans le le₂) le', hQ le'⟩

theorem numbered {f : CodeId → Numbering α} (hf : ∀ code, Lays (From first AnyKind) (f code) Q) :
    Lays (From first K) (freshCode >>= f) Q :=
  fun _ code _ _ _ hc hs read => hf code hc ⟨hs.1, trivial⟩ read

theorem peek {f : Kind → Numbering α} (hf : ∀ k, K k → Lays (From first (· = k)) (f k) Q) :
    Lays (From first K) (liftM peek >>= f) Q :=
  fun _ _ c _ _ hc hs read => hf c.front.kind hs.2 hc ⟨hs.1, rfl⟩ read

/-- The token at hand is passed, and what is read goes on at least to its line. -/
theorem pass {k : Kind} {x : Numbering α} (other : k.isLayout = false)
    (hx : Lays (From first AnyKind) x fun last a => first ≤ last → Q last a) :
    Lays (From first (· = k)) (do advance; x) Q :=
  after .advance fun _ => hx.imp fun _ _ ha passed => ha (passed fun _ same => same ▸ other)

theorem here {f : Position → Numbering α}
    (hf : ∀ p, first ≤ p.line → Lays (From p.line K) (f p) Q) :
    Lays (From first K) (liftM here >>= f) Q :=
  fun _ _ c _ _ hc hs read => hf c.front.pos hs.1 hc ⟨Nat.le_refl _, hs.2⟩ read

/-- What has been read before a place lies before the line there. -/
theorem afterHere {P : Nat → β → Prop} {x : Parse β} {f : β → Position → Numbering α}
    (hx : Places first K x P)
    (hf : ∀ b p, first ≤ p.line → P p.line b → Lays (From p.line AnyKind) (f b p) Q) :
    Lays (From first K) (do
      let b ← x
      let p ← Parser.here
      f b p) Q := by
  intro lines code c c' r hc hs read
  obtain ⟨b, c₁, hb, read⟩ := ok_of_lift read
  obtain ⟨hc₁, hfirst, le, hP⟩ := hx hc hs.1 hs.2 hb
  obtain ⟨hc', fresh, le', hQ⟩ := hf b c₁.front.pos hfirst (hP _ hc₁.before) hc₁
    ⟨Nat.le_refl _, trivial⟩ read
  exact ⟨hc', fresh, Nat.le_trans le le', hQ⟩

theorem lastLine {f : Nat → Numbering α} (hf : Lays (After l) (f l) Q) :
    Lays (After l) (liftM lastLine >>= f) Q := by
  rintro lines code c c' r hc ⟨fresh, rfl⟩ read
  exact hf hc ⟨fresh, rfl⟩ read

/-- A token that is no layout must be passed. -/
theorem expected {m : Mark} {place : Place} {x : Numbering α} (other : m.isLayout = false)
    (hx : Lays (Past first) x Q) : Lays (From first K) (do expect m place; x) Q := by
  intro lines code c c' r hc hs read
  obtain ⟨b, c₁, hb, read⟩ := ok_of_lift read
  obtain ⟨hc₁, -, le, passed⟩ := Places.expect hc hs.1 hs.2 hb
  obtain ⟨hc', fresh, le', hQ⟩ := hx hc₁ (passed _ (Nat.le_refl _) other) read
  exact ⟨hc', fresh, Nat.le_trans le le', hQ⟩

theorem past {x : Numbering α} (hx : Lays (From first AnyKind) x Q) : Lays (Past first) x Q :=
  hx.restrict fun hc hs => ⟨Nat.le_trans hs hc.before, trivial⟩

/-- The logical line may end here. -/
theorem newline {x y : Numbering α} (hx : ∀ l, first ≤ l → Lays (After l) x Q)
    (hy : Lays (Past first) y Q) :
    Lays (Past first) (do if ← accept .newline then x else y) Q := by
  intro lines code c c' r hc hs read
  obtain ⟨found, c₁, hb, read⟩ := ok_of_lift read
  unfold Parser.accept at hb
  split at hb
  · next ahead =>
    cases hb
    obtain ⟨fresh₁, same⟩ := hc.fresh_next (Kind.isMark_iff.1 ahead)
    obtain ⟨hc', fresh, le, hQ⟩ := hx c.lastLine hs hc.next.1 ⟨fresh₁, same⟩ read
    exact ⟨hc', fresh, same ▸ le, hQ⟩
  · cases hb
    exact hy hc hs read

/-- Layout must be passed after a logical line. -/
theorem layout {m : Mark} {place : Place} {x : Numbering α} (layout : m.isLayout = true)
    (hx : Lays (After l) x Q) : Lays (After l) (do expect m place; x) Q := by
  rintro lines code c c' r hc ⟨fresh, rfl⟩ read
  obtain ⟨b, c₁, hb, read⟩ := ok_of_lift read
  unfold Parser.expect at hb
  split at hb
  · next ahead =>
    cases hb
    obtain ⟨fresh₁, same⟩ := fresh.next (by rw [Kind.isMark_iff.1 ahead]; exact layout)
    obtain ⟨hc', fresh', le, hQ⟩ := hx hc.next.1 ⟨fresh₁, same⟩ read
    exact ⟨hc', fresh', same ▸ le, hQ⟩
  · cases hb

/-- A word at the beginning of a logical line may be passed. -/
theorem hereAccepted {m : Mark} {x y : Position → Numbering α} (other : m.isLayout = false)
    (hx : ∀ p, l < p.line → Lays (From p.line AnyKind) (x p) fun last a =>
      p.line ≤ last → Q last a)
    (hy : ∀ p, Lays (After l) (y p) Q) :
    Lays (After l) (do
      let p ← Parser.here
      if ← accept m then x p else y p) Q := by
  intro lines code c c' r hc hs read
  obtain ⟨p, c₁, hb, read⟩ := ok_of_lift read
  cases hb
  obtain ⟨found, c₁, hb, read⟩ := ok_of_lift read
  unfold Parser.accept at hb
  split at hb
  · next ahead =>
    cases hb
    obtain ⟨hc₁, later, le, passed⟩ := hc.next
    have begins : l < c.front.pos.line := hs.lt_front (not_endsBlock ahead other)
    obtain ⟨hc', fresh, le', hQ⟩ := hx c.front.pos begins hc₁ ⟨later, trivial⟩ read
    refine ⟨hc', fresh, Nat.le_trans le le', hQ (Nat.le_trans (passed ?_) le')⟩
    rw [Kind.isMark_iff.1 ahead]
    exact other
  · cases hb
    exact hy _ hc hs read

theorem accepted {m : Mark} {x y : Numbering α} (other : m.isLayout = false)
    (hx : Lays (From (l + 1) AnyKind) x Q) (hy : Lays (After l) y Q) :
    Lays (After l) (do if ← accept m then x else y) Q := by
  have placed : Lays (After l) (do
      let _ ← Parser.here
      if ← accept m then x else y) Q :=
    hereAccepted other (fun p begins => (hx.restrict fun _ hs => ⟨Nat.le_trans begins hs.1,
      trivial⟩).imp fun _ _ h _ => h) fun _ => hy
  exact placed

/-- What is read at the beginning of a logical line, if that does not end the text. -/
theorem atEnd {x : Numbering α} {a : α} (none : ∀ last, Q last a)
    (hx : Lays (fun c => start c ∧ c.front.kind ≠ .mark .endOfFile) x Q) :
    Lays start (do if ← isAt .endOfFile then return a else x) Q := by
  intro lines code c c' r hc hs read
  obtain ⟨found, c₁, hb, read⟩ := ok_of_lift read
  cases hb
  split at read
  · next ended =>
    cases read
    exact ⟨hc, .inl (Kind.isMark_iff.1 ended), Nat.le_refl _, none _⟩
  · next goes => exact hx hc ⟨hs, fun ended => goes (Kind.isMark_iff.2 ended)⟩ read

/-- What is read at the beginning of a logical line, if that does not end a block. -/
theorem unended {x : Numbering α} {a : α} (none : Q l a)
    (hx : Lays (From (l + 1) AnyKind) x Q) :
    Lays (After l) (do if (← isAt .dedent) || (← isAt .endOfFile) then return a else x) Q := by
  intro lines code c c' r hc hs read
  obtain ⟨atDedent, c₁, hb, read⟩ := ok_of_lift read
  cases hb
  obtain ⟨atEnd, c₁, hb, read⟩ := ok_of_lift read
  cases hb
  split at read
  · exact pure none hc hs read
  · next goes =>
    refine hx hc ⟨hs.lt_front fun ends => goes ?_, trivial⟩ read
    rcases ends with ends | ends
    · rw [Kind.isMark_iff.2 ends, Bool.true_or]
    · rw [Kind.isMark_iff.2 ends, Bool.or_true]

end Lays

/-! ### Statements -/

/-- The statements stand between two lines, with definitions one after the other. -/
def Filled (first last : Nat) (ss : List Stmt) : Prop :=
  first ≤ last ∧ Stmt.AllLie first last ss

/-- The statements of a block after a header on the first line; definitions in it begin below. -/
structure Hangs (first last : Nat) (ss : List Stmt) : Prop where
  le : first ≤ last
  lie : Stmt.AllLie first last ss
  inner : ∀ s ∈ ss, ∀ t ∈ (Node.stmt s).spans, first < t.first

/-- The parsers of statements, with their depth, give the nodes that they make lines between the one
at which they begin and the last one that they pass. -/
structure AllLay (n : Nat) : Prop where
  statement (first : Nat) : Lays (From first AnyKind) (statement n) (Filled first)
  block (first : Nat) (place : Place) : Lays (From first AnyKind) (block n place) (Hangs first)
  statements (l : Nat) : Lays (After l) (statements n) (Stmt.AllLie (l + 1))
  elseBlock (l : Nat) : Lays (After l) (elseBlock n) (Stmt.AllLie (l + 1))
  ifStatement (p : Position) : Lays (From p.line AnyKind) (ifStatement n p) fun last s =>
    p.line ≤ last → (Node.stmt s).Lies p.line last
  handlers (l : Nat) : Lays (After l) (handlers n) fun last hs =>
    Node.AllLie (l + 1) last (hs.map .handler)
  tryStatement (p : Position) : Lays (From p.line AnyKind) (tryStatement n p) fun last s =>
    p.line ≤ last → (Node.stmt s).Lies p.line last
  definition (first : Nat) : Lays (From first AnyKind) (definition n) fun last s =>
    first ≤ last ∧ (Node.stmt s).Lies first last
  functionDefinition (first : Nat) (isAsync : Bool) (ds : List Expr) (p : Position)
    (before : first ≤ p.line) (above : AllBetween first p.line ds) :
    Lays (From p.line AnyKind) (functionDefinition n isAsync ds p) fun last s =>
      p.line ≤ last → (Node.stmt s).Lies first last
  classDefinition (first : Nat) (ds : List Expr) (p : Position) (before : first ≤ p.line)
    (above : AllBetween first p.line ds) :
    Lays (From p.line AnyKind) (classDefinition n ds p) fun last s =>
      p.line ≤ last → (Node.stmt s).Lies first last

theorem filled_one {first last : Nat} {s : Stmt} (le : first ≤ last)
    (h : (Node.stmt s).Lies first last) : Filled first last [s] := ⟨le, .one h⟩

theorem lays_simpleStatements (n first : Nat) :
    Lays (From first AnyKind) (liftM (simpleStatements n)) (Hangs first) := by
  intro lines code c c' r hc hs read
  obtain ⟨⟨ss, c₁⟩, hread, moved⟩ := ok_of_bind read
  cases moved
  have simple : ∀ s ∈ ss, (Node.stmt s).spans = [] := fun s hs =>
    Stmt.spans_of_isSimple (gives_simpleStatements n _ _ _ hread s hs)
  unfold simpleStatements at hread
  obtain ⟨⟨s, c₁⟩, one, hread⟩ := ok_of_bind hread
  obtain ⟨⟨others, c₂⟩, more, hread⟩ := ok_of_bind hread
  change (if c₂.front.kind.isMark .endOfFile = true then pure (s :: others) else
    expect .newline .statement >>= fun _ => pure (s :: others)) c₂ = _ at hread
  obtain ⟨hc₁, hfirst, le, hone⟩ := places_smallStatement n first hc hs.1 trivial one
  obtain ⟨hc₂, -, le', hmore⟩ := places_moreSmall n first hc₁ hfirst trivial more
  -- the line has ended with a newline, or the text has
  have ended : c'.Ordered lines ∧ c'.Fresh ∧ c'.lastLine = c₂.lastLine ∧ ss = s :: others := by
    split at hread
    · next ended =>
      cases hread
      exact ⟨hc₂, .inl (Kind.isMark_iff.1 ended), rfl, rfl⟩
    · obtain ⟨⟨_, c₃⟩, passed, hread⟩ := ok_of_bind hread
      cases hread
      unfold expect at passed
      split at passed
      · next ahead =>
        cases passed
        obtain ⟨fresh, same⟩ := hc₂.fresh_next (Kind.isMark_iff.1 ahead)
        exact ⟨hc₂.next.1, fresh, same, rfl⟩
      · cases passed
  obtain ⟨hc', fresh, same, rfl⟩ := ended
  have between : ∀ t ∈ s :: others, (Node.stmt t).Between first c'.lastLine := by
    rw [same]
    exact List.forall_mem_cons.2 ⟨hone _ le', hmore _ (Nat.le_refl _)⟩
  have stands := (Node.between_iff.1 (between s List.mem_cons_self)).1 s.pos rfl
  refine ⟨hc', fresh, same ▸ Nat.le_trans le le', Nat.le_trans stands.1 stands.2, ?_, ?_⟩
  · exact .of_between (List.forall_mem_map.2 between) (List.forall_mem_map.2 simple)
  · intro t ht u hu
    rw [simple t ht] at hu
    cases hu

namespace AllLay

variable {n : Nat} (ih : AllLay n) (first l : Nat)

include ih

theorem next_block (place : Place) :
    Lays (From first AnyKind) (Parser.block (n + 1) place) (Hangs first) := by
  unfold Parser.block
  refine .expected rfl (.newline (fun l le => .layout rfl ?_) ?_)
  case refine_2 => exact .past (lays_simpleStatements n first)
  refine .followed (ih.statements l).known fun body last hbody => .layout rfl (.pure fun _ => ?_)
  have later : first ≤ l + 1 := Nat.le_succ_of_le le
  refine ⟨Nat.le_trans le hbody.1, hbody.2.mono later (Nat.le_refl _), fun s hs t ht => ?_⟩
  exact Nat.lt_of_lt_of_le (Nat.lt_succ_of_le le)
    ((hbody.2.each _ (List.mem_map_of_mem hs)).spans t ht).1

theorem next_statements :
    Lays (After l) (Parser.statements (n + 1)) (Stmt.AllLie (l + 1)) := by
  unfold Parser.statements
  refine .unended .none (.followed (ih.statement (l + 1)) fun ss l₁ hss => ?_)
  refine .followed (ih.statements l₁) fun ts l₂ hts => .pure fun _ le => ?_
  rw [Stmt.AllLie, List.map_append]
  exact hss.2.append hts (Nat.le_succ_of_le hss.1) le

theorem next_elseBlock : Lays (After l) (Parser.elseBlock (n + 1)) (Stmt.AllLie (l + 1)) := by
  unfold Parser.elseBlock
  exact .accepted rfl ((ih.block (l + 1) .elseWord).imp fun _ _ h => h.lie) (.pure .none)

theorem next_ifStatement (p : Position) :
    Lays (From p.line AnyKind) (Parser.ifStatement (n + 1) p) fun last s =>
      p.line ≤ last → (Node.stmt s).Lies p.line last := by
  unfold Parser.ifStatement
  refine .after ((allPlace n).test p.line) fun test => ?_
  refine .followed (ih.block p.line .ifTest) fun body l hbody => ?_
  have whole {last : Nat} {orelse : List Stmt} (htest : Between p.line last test) (le : l ≤ last)
      (horelse : Stmt.AllLie (l + 1) last orelse) :
      (Node.stmt (.cond test body orelse p)).Lies p.line last :=
    Stmt.lies_of_orelse rfl rfl rfl (by simp [Node.isPlain]) (List.forall_mem_singleton.2 htest)
      hbody.le le hbody.lie horelse
  refine .hereAccepted rfl (fun q begins => ?_) fun _ => ?_
  · refine .followed (ih.ifStatement q) fun inner last hinner => .pure fun _ passed le htest _ => ?_
    exact whole htest le (.one ((hinner passed).mono begins (Nat.le_refl _)))
  · refine .followed (ih.elseBlock l) fun orelse last horelse => .pure fun _ le htest _ => ?_
    exact whole htest le horelse

theorem next_handlers : Lays (After l) (Parser.handlers (n + 1)) fun last hs =>
    Node.AllLie (l + 1) last (hs.map .handler) := by
  unfold Parser.handlers
  refine .hereAccepted rfl (fun p begins => ?_) fun _ => .pure .none
  refine .headed (places_caught n p.line) (fun r => ih.block p.line .exceptClause)
    fun r body l₁ hkind hbody => ?_
  refine .followed (ih.handlers l₁).known fun hs l₂ hhs => .pure fun _ _ _ => ?_
  have clause : (Node.handler (.clause r.1 r.2 body p)).Lies p.line l₁ :=
    Stmt.lies_clause hbody.le hkind hbody.lie
  have later : l + 1 ≤ l₁ + 1 := Nat.le_succ_of_le (Nat.le_trans begins hbody.le)
  exact (Node.AllLie.one (clause.mono begins (Nat.le_refl _))).append hhs.2 later hhs.1

theorem next_tryStatement (p : Position) :
    Lays (From p.line AnyKind) (Parser.tryStatement (n + 1) p) fun last s =>
      p.line ≤ last → (Node.stmt s).Lies p.line last := by
  unfold Parser.tryStatement
  refine .regardless ?_
  refine .followed (ih.block p.line .tryWord) fun body l hbody => .regardless ?_
  refine .followed (ih.handlers l).known fun hs l₁ hhs => .regardless ?_
  have ending {l₂ l₃ : Nat} (orelse final : List Stmt) (le : l₁ ≤ l₂)
      (horelse : Stmt.AllLie (l₁ + 1) l₂ orelse) (le' : l₂ ≤ l₃)
      (hfinal : Stmt.AllLie (l₂ + 1) l₃ final) :
      Lays (After l₃)
        (if (hs.isEmpty && final.isEmpty) = true then
          liftM (Parser.failHere (α := Stmt) .missingHandler)
          else pure (.tryBlock body hs orelse final p))
        fun last s => (Node.stmt s).Lies p.line last := by
    split
    · exact .failHere
    · exact .pure (Stmt.lies_tryBlock hbody.le hhs.1 le le' hbody.lie hhs.2 horelse hfinal)
  have final {l₂ : Nat} (orelse : List Stmt) (le : l₁ ≤ l₂)
      (horelse : Stmt.AllLie (l₁ + 1) l₂ orelse) :
      Lays (After l₂) _ fun last s => (Node.stmt s).Lies p.line last :=
    .accepted (m := .keyword .finallyKw) rfl
      (.followed (ih.block (l₂ + 1) .finallyWord) fun _ _ h =>
        .regardless (ending orelse _ le horelse (Nat.le_of_succ_le h.le) h.lie))
      (ending orelse [] le horelse (Nat.le_refl _) .none)
  dsimp only
  split
  · exact final [] (Nat.le_refl _) .none
  · exact .followed (ih.elseBlock l₁).known fun orelse l₂ h => .regardless (final orelse h.1 h.2)

theorem next_definition : Lays (From first AnyKind) (Parser.definition (n + 1)) fun last s =>
    first ≤ last ∧ (Node.stmt s).Lies first last := by
  unfold Parser.definition
  refine .afterHere (places_decorators n first) fun ds p before above => ?_
  have begun {x : Numbering Stmt} (hx : Lays (From p.line AnyKind) x fun last s =>
      p.line ≤ last → (Node.stmt s).Lies first last) :
      Lays (From p.line AnyKind) x fun last s =>
        p.line ≤ last → first ≤ last ∧ (Node.stmt s).Lies first last :=
    hx.imp fun _ _ h le => ⟨Nat.le_trans before le, h le⟩
  refine .peek fun k _ => ?_
  split
  · exact .pass rfl (begun (ih.functionDefinition first false ds p before above))
  · refine .pass rfl (.skip .moves_expect fun _ => ?_)
    exact begun (ih.functionDefinition first true ds p before above)
  · exact .pass rfl (begun (ih.classDefinition first ds p before above))
  · exact .failFound

theorem next_functionDefinition (isAsync : Bool) (ds : List Expr) (p : Position)
    (before : first ≤ p.line) (above : AllBetween first p.line ds) :
    Lays (From p.line AnyKind) (Parser.functionDefinition (n + 1) isAsync ds p) fun last s =>
      p.line ≤ last → (Node.stmt s).Lies first last := by
  unfold Parser.functionDefinition
  refine .after .identifier fun name => .numbered fun code => .skip .moves_expect fun _ => ?_
  refine .after (places_parameters n p.line []) fun params => .skip .moves_expect fun _ => ?_
  refine .after (.following ((allPlace n).test p.line)) fun returns => ?_
  refine .followed (ih.block p.line .functionBody) fun body endLine hbody => .lastLine ?_
  refine .pure fun _ hreturns hparams named passed => ?_
  let d : Definition := ⟨name, ds, p, endLine, body⟩
  refine Definition.lies (d := d) rfl rfl named.1 before passed (fun e he => (above e he).pos) rfl
    ?_ ?_ hbody.lie hbody.inner
  · simp [Node.isPlain, or_imp, forall_and]
  · refine List.forall_mem_append.2 ⟨List.forall_mem_append.2 ⟨?_, ?_⟩, ?_⟩
    · exact Node.between_exprs fun e he => (above e he).mono (Nat.le_refl _) passed
    · exact List.forall_mem_map.2 fun q hq => (hparams q hq).mono before (Nat.le_refl _)
    · exact Node.between_option fun e he => (hreturns e he).widen before

theorem next_classDefinition (ds : List Expr) (p : Position)
    (before : first ≤ p.line) (above : AllBetween first p.line ds) :
    Lays (From p.line AnyKind) (Parser.classDefinition (n + 1) ds p) fun last s =>
      p.line ≤ last → (Node.stmt s).Lies first last := by
  unfold Parser.classDefinition
  refine .after .identifier fun name => .numbered fun code => ?_
  refine .after (places_baseClasses n p.line) fun bases => ?_
  refine .followed (ih.block p.line .classBody) fun body endLine hbody => .lastLine ?_
  refine .pure fun _ hbases named passed => ?_
  let d : Definition := ⟨name, ds, p, endLine, body⟩
  refine Definition.lies (d := d) rfl rfl named.1 before passed (fun e he => (above e he).pos) rfl
    ?_ ?_ hbody.lie hbody.inner
  · simp [Node.isPlain, or_imp, forall_and]
  · refine List.forall_mem_append.2 ⟨?_, Node.between_exprs (hbases.widen before)⟩
    exact Node.between_exprs fun e he => (above e he).mono (Nat.le_refl _) passed

theorem next_statement : Lays (From first AnyKind) (Parser.statement (n + 1)) (Filled first) := by
  unfold Parser.statement
  refine .here fun p before => .peek fun k _ => ?_
  refine .imp (Q := Filled p.line) ?_ fun last ss hss =>
    ⟨Nat.le_trans before hss.1, hss.2.mono before (Nat.le_refl _)⟩
  have one {x : Numbering Stmt} (hx : Lays (From p.line AnyKind) x fun last s =>
      p.line ≤ last → (Node.stmt s).Lies p.line last) :
      Lays (From p.line AnyKind) (x >>= fun s => pure [s]) fun last ss =>
        p.line ≤ last → Filled p.line last ss :=
    .followed hx fun s l hs => .pure fun _ le => filled_one le (hs le)
  split
  case h_1 | h_2 | h_3 | h_4 =>
    refine .anyhow (.followed (ih.definition p.line) fun s l hs => .pure fun _ => ?_)
    exact filled_one hs.1 hs.2
  case h_5 => exact .pass rfl (one (ih.ifStatement p))
  case h_6 =>
    refine .pass rfl (.after ((allPlace n).test p.line) fun test => ?_)
    refine .followed (ih.block p.line .whileTest) fun body l hbody => ?_
    refine .followed (ih.elseBlock l) fun orelse last horelse => .pure fun _ le htest passed => ?_
    refine filled_one passed (Stmt.lies_of_orelse rfl rfl rfl (by simp [Node.isPlain]) ?_
      hbody.le le hbody.lie horelse)
    exact List.forall_mem_singleton.2 htest
  case h_7 =>
    refine .pass rfl (.after (places_targetList n p.line) fun target => ?_)
    refine .skip (moves_checkTargets p.line _ _) fun _ => .skip .moves_expect fun _ => ?_
    refine .after ((allPlace n).testList p.line) fun iter => ?_
    refine .followed (ih.block p.line .forClause) fun body l hbody => ?_
    refine .followed (ih.elseBlock l) fun orelse last horelse => ?_
    refine .pure fun _ le hiter htarget passed => ?_
    refine filled_one passed (Stmt.lies_of_orelse rfl rfl rfl (by simp [Node.isPlain]) ?_
      hbody.le le hbody.lie horelse)
    exact List.forall_mem_cons.2 ⟨htarget, List.forall_mem_singleton.2 hiter⟩
  case h_8 => exact .pass rfl (one (ih.tryStatement p))
  case h_9 =>
    refine .pass rfl (.after (places_withItems n p.line) fun items => ?_)
    refine .followed (ih.block p.line .withItems) fun body l hbody => ?_
    refine .pure fun _ hitems passed => filled_one passed ?_
    exact Stmt.lies_withBlock hitems hbody.le hbody.lie
  case h_10 | h_11 => exact .failHere
  case h_12 => exact (lays_simpleStatements n p.line).anyhow.imp fun _ _ h => ⟨h.le, h.lie⟩

end AllLay

theorem allLay (n : Nat) : AllLay n := by
  induction n with
  | zero =>
    constructor <;> intros <;> exact .failHere
  | succ n ih =>
    exact ⟨ih.next_statement, ih.next_block, ih.next_statements, ih.next_elseBlock,
      ih.next_ifStatement, ih.next_handlers, ih.next_tryStatement, ih.next_definition,
      ih.next_functionDefinition, ih.next_classDefinition⟩

/-- A block cannot end where none has begun. -/
theorem statement_dedent (n : Nat) {code : CodeId} {c c' : Cursor} {r : List Stmt × CodeId}
    (ends : c.front.kind = .mark .dedent) : statement n code c ≠ .ok (r, c') := by
  intro read
  cases n with
  | zero => cases read
  | succ n =>
    unfold statement at read
    obtain ⟨p, c₁, hb, read⟩ := ok_of_lift read
    cases hb
    obtain ⟨k, c₁, hb, read⟩ := ok_of_lift read
    cases hb
    rw [ends] at read
    cases read

theorem lays_program (n first : Nat) :
    Lays (From first AnyKind) (program n) (Stmt.AllLie first) ∧
      ∀ l, Lays (After l) (program n) (Stmt.AllLie (l + 1)) := by
  induction n with
  | zero => exact ⟨.failHere, fun _ => .failHere⟩
  | succ n ih =>
    have more {first l : Nat} {ss : List Stmt} (hss : Filled first l ss) :
        Lays (After l) (program n >>= fun ts => pure (ss ++ ts)) fun last ts =>
          l ≤ last → Stmt.AllLie first last ts := by
      refine .followed (ih.2 l) fun ts l₁ hts => .pure fun _ le => ?_
      rw [Stmt.AllLie, List.map_append]
      exact hss.2.append hts (Nat.le_succ_of_le hss.1) le
    have some (first : Nat) : Lays (From first AnyKind)
        (statement n >>= fun ss => program n >>= fun ts => pure (ss ++ ts)) (Stmt.AllLie first) :=
      .followed ((allLay n).statement first) fun ss l hss => more hss
    unfold program
    refine ⟨.atEnd (fun _ => .none) ((some first).restrict fun _ hs => hs.1), fun l =>
      .atEnd (fun _ => .none) ?_⟩
    rintro lines code c c' r hc ⟨hs, open_⟩ read
    by_cases ends : c.front.kind = .mark .dedent
    · obtain ⟨r₁, hr₁, -⟩ := ok_of_bind read
      exact absurd hr₁ (statement_dedent n ends)
    · exact some (l + 1) hc ⟨hs.lt_front (not_or.2 ⟨ends, open_⟩), trivial⟩ read

end Parser

/-- The nodes of a script that has been parsed stand on the lines of its text. -/
theorem lies_of_parse {source : String} {script : Script} {lines : Nat}
    (within : ∀ g ∈ Token.Glyph.ofChars .start source.toList, g.pos.line ≤ lines)
    (h : parse source = .ok script) : (Node.script script).Lies 1 (max 1 lines) := by
  obtain ⟨tokens, scanned, depth, n, c, read⟩ := exists_of_parse h
  have ordered := inOrder_tokenize within scanned
  have begins : (Parser.Cursor.ofTokens tokens).Ordered lines ∧
      1 ≤ (Parser.Cursor.ofTokens tokens).front.pos.line := by
    cases tokens with
    | nil =>
      obtain ⟨front, final, none, -⟩ := ordered.ended
      exact absurd none (by simp)
    | cons t ts =>
      have first := ordered.first t List.mem_cons_self
      exact ⟨⟨ordered, first, Nat.le_max_left 1 lines⟩, first⟩
  obtain ⟨after, -, -, hss⟩ :=
    (Parser.lays_program depth 1).1 begins.1 ⟨begins.2, trivial⟩ read
  exact Node.lies_of_children rfl (fun _ hp => absurd hp (Option.not_mem_none _))
    (hss.mono (Nat.le_refl _) after.within)

/-! ### What is told -/

namespace Node

/-- The lines that are told because of the node itself. -/
def told : Node → List Nat
  | stmt s => s.toldLines
  | handler h => [h.pos.line]
  | _ => []

/-- The node has its lines between two lines. If it is a definition, its span lies there too and
holds the lines of all that is below it. -/
structure Fits (first last : Nat) (n : Node) : Prop where
  told : ∀ l ∈ n.told, first ≤ l ∧ l ≤ last
  definition : ∀ name s, n.definition? = some (name, s) →
    name ≠ topName ∧ first ≤ s.first ∧ s.last ≤ last ∧
      ∀ m ∈ n.walk, ∀ l ∈ m.told, s.first ≤ l ∧ l ≤ s.last

def AllFit (first last : Nat) (n : Node) : Prop := ∀ m ∈ n.walk, m.Fits first last

variable {first last : Nat} {n : Node}

theorem allFit_of_children (fits : n.Fits first last)
    (children : ∀ m ∈ n.children, m.AllFit first last) : n.AllFit first last := by
  intro m hm
  rw [walk_eq, List.mem_cons, List.mem_flatMap] at hm
  rcases hm with rfl | ⟨child, hchild, hm⟩
  · exact fits
  · exact children child hchild m hm

theorem told_of_isPlain (h : n.isPlain = true) : n.told = [] := by
  cases n with
  | script | stmt | handler => cases h
  | imported | expr | param | withItem => rfl

/-- What is told of a node stands in it. -/
theorem Between.told (h : n.Between first last) {l : Nat} (hl : l ∈ n.told) :
    first ≤ l ∧ l ≤ last := by
  obtain ⟨own, children⟩ := between_iff.1 h
  cases n with
  | stmt s =>
    have decorated {e : Expr} (he : e ∈ s.decorators) : expr e ∈ s.parts := by
      cases s with
      | function h body => exact List.mem_append_left _ (List.mem_append_left _
          (List.mem_append_left _ (List.mem_map_of_mem he)))
      | classDef h body => exact List.mem_append_left _ (List.mem_append_left _
          (List.mem_map_of_mem he))
      | _ => cases he
    change l ∈ s.toldLines at hl
    unfold Stmt.toldLines at hl
    split at hl
    · cases hl
    · rcases List.mem_append.1 hl with hl | hl
      · obtain ⟨e, he, rfl⟩ := List.mem_map.1 hl
        exact (between_iff.1 (children _ (decorated he))).1 e.pos rfl
      · rw [List.mem_singleton.1 hl]
        exact own s.pos rfl
  | handler c =>
    rw [List.mem_singleton.1 hl]
    exact own c.pos rfl
  | script | expr | param | withItem | imported => cases hl

/-- What is told because of a definition itself lies in its span. -/
theorem told_of_toDefinition? {d : Definition} (defined : n.toDefinition? = some d)
    (holds : d.Encloses) {l : Nat} (hl : l ∈ n.told) : d.span.first ≤ l ∧ l ≤ d.span.last := by
  have lines : n.told = d.decorators.map (·.pos.line) ++ [d.pos.line] := by
    unfold toDefinition? at defined
    split at defined
    · cases defined
      rfl
    · cases defined
      rfl
    · cases defined
  rw [lines] at hl
  rcases List.mem_append.1 hl with hl | hl
  · obtain ⟨e, he, rfl⟩ := List.mem_map.1 hl
    exact ⟨(foldl_min_le d.decorators d.pos.line).2 e he,
      Nat.le_trans (holds.above e he) d.pos_le_last⟩
  · rw [List.mem_singleton.1 hl]
    exact ⟨d.first_le_pos, d.pos_le_last⟩

theorem allFit_of_lies (h : n.Lies first last) : n.AllFit first last := by
  intro m hm
  have between : m.Between first last := fun k hk => h.between k (mem_walk_trans hm hk)
  refine ⟨fun l hl => between.told hl, fun name s defined => ?_⟩
  rw [definition?_eq] at defined
  obtain ⟨d, found, same⟩ := Option.map_eq_some_iff.1 defined
  obtain ⟨rfl, rfl⟩ := Prod.mk.inj same
  have holds := (h.laminar m hm).2 d found
  obtain ⟨before, after⟩ := h.spans d.span (mem_spans.2 ⟨m, hm, d, found, rfl⟩)
  refine ⟨holds.named, before, after, fun k hk l hl => ?_⟩
  rw [walk_eq, List.mem_cons, List.mem_flatMap] at hk
  rcases hk with rfl | ⟨child, hchild, hk⟩
  · exact told_of_toDefinition? found holds hl
  · obtain ⟨header, split, plain⟩ := children_of_toDefinition? found
    rw [split] at hchild
    rcases List.mem_append.1 hchild with hchild | hchild
    · rw [told_of_isPlain (isPlain_below (plain child hchild) hk)] at hl
      cases hl
    · obtain ⟨s, hs, rfl⟩ := List.mem_map.1 hchild
      have inside : k.Between d.pos.line d.endLine := fun j hj =>
        holds.body s hs j (mem_walk_trans hk hj)
      obtain ⟨lower, upper⟩ := inside.told hl
      exact ⟨Nat.le_trans d.first_le_pos lower, Nat.le_trans upper d.endLine_le_last⟩

end Node

/-- The statements of a script that has been parsed have what is told of them on the lines of its
text, and its definitions hold all that is told in them. -/
theorem allFit_of_parse {source : String} {script : Script} {lines : Nat}
    (within : ∀ g ∈ Token.Glyph.ofChars .start source.toList, g.pos.line ≤ lines)
    (h : parse source = .ok script) :
    ∀ s ∈ script.body, (Node.stmt s).AllFit 1 (max 1 lines) := by
  intro s hs m hm
  refine Node.allFit_of_lies (lies_of_parse within h) m (Node.mem_walk_of_child ?_ hm)
  exact List.mem_map_of_mem hs

end Footprint
