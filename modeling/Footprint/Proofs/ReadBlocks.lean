import Footprint.Proofs.ReadStatements

set_option autoImplicit false

/-!
The parser reads statements with blocks back from the tokens they are written with, whatever number
the next definition gets.
-/

namespace Footprint

open Token Grammar Outline Stmt

namespace Parser

/-- Whatever the next number is, the parser passes the tokens. -/
def Consumes {α : Type} (x : Numbering α) (ks : List Kind) (follow : Kind → Prop) (Q : α → Prop) :
    Prop := ∀ code, Takes (x code) ks follow fun r => Q r.1

namespace Consumes

variable {α β : Type} {ks ks' : List Kind} {F G : Kind → Prop} {P : β → Prop} {Q : α → Prop}

theorem lift_bind (x : Parse β) (f : β → Numbering α) (code : CodeId) :
    (liftM x >>= f : Numbering α) code = x >>= fun b => f b code := by
  funext c
  change ((x c >>= fun r => Except.ok ((r.1, code), r.2)) >>= fun r => f r.1.1 r.1.2 r.2) = _
  cases h : x c with
  | error e =>
    change _ = x c >>= _
    rw [h]
    rfl
  | ok r =>
    change _ = x c >>= _
    rw [h]
    rfl

theorem pure {a : α} (h : Q a) : Consumes (pure a) [] F Q := fun _ => .pure h

/-- A parser that numbers nothing, and what comes after it. -/
theorem read {x : Parse β} {f : β → Numbering α}
    (h : ∀ code, Takes (x >>= fun b => f b code) ks F fun r => Q r.1) :
    Consumes (liftM x >>= f) ks F Q := by
  intro code
  rw [lift_bind]
  exact h code

/-- A check that is met. -/
theorem met {x : Parse Unit} {f : Unit → Numbering α} (h : x = Pure.pure ())
    (hf : Consumes (f ()) ks F Q) : Consumes (liftM x >>= f) ks F Q := by
  subst h
  exact .read fun code => hf code

theorem first {x : Parse β} {f : β → Numbering α} (hx : Takes x ks F P)
    (hf : ∀ b, P b → Consumes (f b) ks' G Q) (follows : ∀ k, G k → F (ks'.headD k)) :
    Consumes (liftM x >>= f) (ks ++ ks') G Q :=
  .read fun code => .bind hx (fun b hb => hf b hb code) follows

theorem bind {x : Numbering β} {f : β → Numbering α} (hx : Consumes x ks F P)
    (hf : ∀ b, P b → Consumes (f b) ks' G Q) (follows : ∀ k, G k → F (ks'.headD k)) :
    Consumes (x >>= f) (ks ++ ks') G Q :=
  fun code => .bind (hx code) (fun r hr => hf r.1 hr r.2) follows

theorem bindLast {x : Numbering β} {f : β → Numbering α} (hx : Consumes x ks F P)
    (hf : ∀ b, P b → Consumes (f b) [] G Q) (follows : ∀ k, G k → F k) :
    Consumes (x >>= f) ks G Q :=
  fun code => .bindLast (hx code) (fun r hr => hf r.1 hr r.2) follows

theorem here {f : Position → Numbering α} (hf : ∀ p, Consumes (f p) ks F Q) :
    Consumes (liftM Parser.here >>= f) ks F Q := .read fun code => .here fun p => hf p code

theorem peek {f : Kind → Numbering α} (hf : ∀ k, F k → Consumes (f (ks.headD k)) ks F Q) :
    Consumes (liftM Parser.peek >>= f) ks F Q := .read fun code => .peek fun k hk => hf k hk code

theorem advance {k : Kind} {f : Unit → Numbering α} (other : k.isMark .endOfFile = false)
    (hf : Consumes (f ()) ks F Q) : Consumes (liftM Parser.advance >>= f) (k :: ks) F Q :=
  .read fun code => .advance other (hf code)

theorem expect {m : Mark} {place : Place} {f : Unit → Numbering α}
    (other : (Kind.mark m).isMark .endOfFile = false) (hf : Consumes (f ()) ks F Q) :
    Consumes (liftM (Parser.expect m place) >>= f) (.mark m :: ks) F Q :=
  .read fun code => .expect other (hf code)

theorem identifier {s : String} {f : String → Numbering α} (hf : Consumes (f s) ks F Q) :
    Consumes (liftM Parser.identifier >>= f) (.name s :: ks) F Q :=
  .read fun code => .identifier (hf code)

theorem accepted {m : Mark} {f : Bool → Numbering α}
    (other : (Kind.mark m).isMark .endOfFile = false) (hf : Consumes (f true) ks F Q) :
    Consumes (liftM (Parser.accept m) >>= f) (.mark m :: ks) F Q :=
  .read fun code => .accepted other (hf code)

theorem not_accepted {m : Mark} {f : Bool → Numbering α}
    (missing : ∀ k, F k → ks.headD k ≠ .mark m) (hf : Consumes (f false) ks F Q) :
    Consumes (liftM (Parser.accept m) >>= f) ks F Q :=
  .read fun code => .not_accepted missing (hf code)

theorem isAt {m : Mark} {b : Bool} {f : Bool → Numbering α}
    (looked : ∀ k, F k → (ks.headD k).isMark m = b) (hf : Consumes (f b) ks F Q) :
    Consumes (liftM (Parser.isAt m) >>= f) ks F Q := by
  refine .read fun code c p t rest hp ht before => ?_
  obtain ⟨a, c', read, after, hQ⟩ := hf code hp ht before
  refine ⟨a, c', ?_, after, hQ⟩
  change f (c.front.kind.isMark m) code c = _
  rw [Takes.front_kind hp before, looked _ ht]
  exact read

theorem lastLine {f : Nat → Numbering α} (hf : ∀ l, Consumes (f l) ks F Q) :
    Consumes (liftM Parser.lastLine >>= f) ks F Q :=
  .read fun code _ _ _ _ hp ht before => hf _ code hp ht before

theorem freshCode {f : CodeId → Numbering α} (hf : ∀ code, Consumes (f code) ks F Q) :
    Consumes (Parser.freshCode >>= f) ks F Q :=
  fun code _ _ _ _ hp ht before => hf code (code + 1) hp ht before

end Consumes

/-- With enough depth for the tokens, the parser passes them. -/
def ConsumesAll {α : Type} (x : Nat → Numbering α) (extra : Nat) (ks : List Kind)
    (follow : Kind → Prop) (Q : α → Prop) : Prop :=
  ∀ n, 12 * ks.length + extra ≤ n → Consumes (x n) ks follow Q

theorem ConsumesAll.next {α : Type} {x : Nat → Numbering α} {extra : Nat} {ks : List Kind}
    {F : Kind → Prop} {Q : α → Prop}
    (h : ∀ n, 12 * ks.length + extra ≤ n → Consumes (x (n + 1)) ks F Q) :
    ConsumesAll x (extra + 1) ks F Q := by
  rintro (_ | n) hn
  · omega
  · exact h n (by omega)

/-! ### Beginnings of statements -/

theorem headD_append (ks ks' : List Kind) (k : Kind) :
    (ks ++ ks').headD k = ks.headD (ks'.headD k) := by
  cases ks <;> rfl

/-- The token does not go on with a statement that has blocks. -/
def Apart (k : Kind) : Prop :=
  k ≠ word .elifKw ∧ k ≠ word .elseKw ∧ k ≠ word .exceptKw ∧ k ≠ word .finallyKw

/-- The token begins a statement. -/
structure Begins (k : Kind) : Prop where
  apart : Apart k
  inside : k.isMark .dedent = false
  before : k.isMark .endOfFile = false

theorem begins_of_opening {k : Kind} (h : opening k ≠ 0) : Begins k := by
  cases k with
  | int | float | str | name =>
    exact ⟨⟨Kind.noConfusion, Kind.noConfusion, Kind.noConfusion, Kind.noConfusion⟩, rfl, rfl⟩
  | mark m =>
    refine ⟨⟨?_, ?_, ?_, ?_⟩, ?_, ?_⟩
    iterate 4
      rintro ⟨⟩
      exact h rfl
    all_goals
      rw [Bool.eq_false_iff]
      intro found
      rw [Kind.isMark_iff.1 found] at h
      exact h rfl

/-- The words that statements without blocks begin with. -/
def simpleWords : List Keyword :=
  [.returnKw, .delKw, .raiseKw, .assertKw, .importKw, .fromKw, .globalKw, .nonlocalKw, .passKw,
    .breakKw, .continueKw]

/-- The token begins a statement without blocks. -/
def Leads (k : Kind) : Prop := opening k ≠ 0 ∨ ∃ w ∈ simpleWords, k = word w

theorem Leads.begins {k : Kind} (h : Leads k) : Begins k := by
  rcases h with opens | ⟨w, hw, rfl⟩
  · exact begins_of_opening opens
  · have apart : ∀ w ∈ simpleWords, Apart (word w) := by simp [simpleWords, Apart]
    exact ⟨apart w hw, rfl, rfl⟩

theorem Leads.ne {k k' : Kind} (h : Leads k) (closes : opening k' = 0)
    (other : ∀ w ∈ simpleWords, word w ≠ k') : k ≠ k' := by
  rcases h with opens | ⟨w, hw, rfl⟩
  · rintro rfl
    exact opens closes
  · exact other w hw

theorem leads_tokens {s : Stmt} (simple : Node.isSimple s = true) (h : (Node.stmt s).Writable)
    (k : Kind) : Leads (s.tokens.headD k) := by
  have opens {e : Expr} (he : Node.expr e ∈ s.parts) (ks : List Kind) :
      Leads ((e.tokens ++ ks).headD k) := .inl (opening_head (h.child he) ks k)
  have led {w : Keyword} (hw : w ∈ simpleWords) (ks : List Kind) :
      Leads ((word w :: ks).headD k) := .inr ⟨w, hw, rfl⟩
  cases s with
  | function | classDef | forLoop | whileLoop | cond | withBlock | tryBlock => cases simple
  | assign targets value p =>
    obtain ⟨e, es, rfl⟩ := List.exists_cons_of_ne_nil h.here.1.1
    rw [tokens, List.flatMap_cons, List.append_assoc, List.append_assoc]
    exact opens (by simp [parts]) _
  | augment | annotate =>
    rw [tokens]
    exact opens (by simp [parts]) _
  | expr value p =>
    have begins := opens (e := value) (by simp [parts]) []
    rwa [List.append_nil] at begins
  | _ => exact led (by decide) _

theorem allKindsOf_simple {s : Stmt} (simple : Node.isSimple s = true) :
    allKindsOf s.outline = s.tokens ++ [.mark .newline] := by
  rw [outline_simple simple, allKindsOf, allKinds, allKindsOf, List.append_nil]
  rfl

/-- The lines of a statement begin with a token that begins a statement. -/
theorem begins_outline (s : Stmt) (h : (Node.stmt s).Writable) :
    ∃ k ks, allKindsOf s.outline = k :: ks ∧ Begins k := by
  have begun {w : Keyword} {ks : List Kind} {below : List Outline} (os : List Outline)
      (apart : Apart (word w)) :
      ∃ k ks', allKindsOf (.entry (word w :: ks) below :: os) = k :: ks' ∧ Begins k :=
    ⟨_, _, rfl, apart, rfl, rfl⟩
  have decorated {ds : List Expr} {os : List Outline}
      (next : ∃ k ks, allKindsOf os = k :: ks ∧ Begins k) :
      ∃ k ks, allKindsOf (decoratorLines ds ++ os) = k :: ks ∧ Begins k := by
    cases ds with
    | nil => exact next
    | cons e ds => exact ⟨sym .atSign, _, rfl, by simp [Apart], rfl, rfl⟩
  cases s with
  | function head body =>
    refine decorated ?_
    rw [FunctionHead.tokens]
    split
    · exact begun _ (by simp [Apart])
    · exact begun _ (by simp [Apart])
  | classDef head body => exact decorated (begun _ (by simp [Apart]))
  | forLoop | whileLoop | cond | withBlock | tryBlock => exact begun _ (by simp [Apart])
  | _ =>
    obtain ⟨k, ks, eq⟩ := List.exists_cons_of_ne_nil (Stmt.tokens_ne_nil h)
    have leads := leads_tokens rfl h k
    rw [eq] at leads
    refine ⟨k, ks ++ [.mark .newline], ?_, leads.begins⟩
    rw [allKindsOf_simple rfl, eq]
    rfl

/-! ### Blocks -/

/-- The tokens after the colon of a header. -/
def blockAfter (body : List Stmt) : List Kind :=
  .mark .newline :: blockKinds (outlineOf body) (allKindsOf (outlineOf body))

/-- The statements of a block are read back. -/
def BlockRead (body : List Stmt) : Prop :=
  ConsumesAll statements 16 (allKindsOf (outlineOf body)) (· = .mark .dedent)
    (Stmt.unplacedAll · = Stmt.unplacedAll body)

section

variable {body orelse : List Stmt}

theorem outline_ne_nil (s : Stmt) : s.outline ≠ [] := by
  cases s with
  | function | classDef => exact List.append_ne_nil_of_right_ne_nil _ (List.cons_ne_nil _ _)
  | _ => exact List.cons_ne_nil _ _

theorem isEmpty_outlineOf (some : body ≠ []) : (outlineOf body).isEmpty = false := by
  obtain ⟨s, ss, rfl⟩ := List.exists_cons_of_ne_nil some
  obtain ⟨o, os, eq⟩ := List.exists_cons_of_ne_nil (outline_ne_nil s)
  rw [outlineOf, eq]
  rfl

theorem blockAfter_eq (some : body ≠ []) : blockAfter body =
    .mark .newline :: .mark .indent :: (allKindsOf (outlineOf body) ++ [.mark .dedent]) := by
  rw [blockAfter, blockKinds, isEmpty_outlineOf some, if_neg Bool.false_ne_true]

theorem consumes_block (some : body ≠ []) (read : BlockRead body) (place : Place)
    {F : Kind → Prop} :
    ConsumesAll (block · place) 1 (sym .colon :: blockAfter body) F
      (Stmt.unplacedAll · = Stmt.unplacedAll body) := by
  rw [blockAfter_eq some]
  refine .next fun n hn => .expect rfl (.accepted rfl (.expect rfl ?_))
  simp only [List.length_cons, List.length_append, List.length_nil] at hn
  refine .bind (read n (by omega)) (fun ss hss => ?_) fun _ _ => rfl
  exact .expect rfl (.pure hss)

theorem allKindsOf_append (os os' : List Outline) :
    allKindsOf (os ++ os') = allKindsOf os ++ allKindsOf os' := by
  induction os with
  | nil => rfl
  | cons o os ih => rw [List.cons_append, allKindsOf, allKindsOf, ih, List.append_assoc]

theorem allKindsOf_optionalBlock (w : Keyword) (body : List Stmt) :
    allKindsOf (optionalBlock w (outlineOf body)) =
      if body = [] then [] else word w :: sym .colon :: blockAfter body := by
  by_cases none : body = []
  · subst none
    rfl
  · rw [optionalBlock, isEmpty_outlineOf none, if_neg Bool.false_ne_true, if_neg none]
    exact List.append_nil _

theorem consumes_elseBlock (read : BlockRead orelse) {F : Kind → Prop}
    (missing : ∀ k, F k → k ≠ word .elseKw) :
    ConsumesAll elseBlock 1 (allKindsOf (optionalBlock .elseKw (outlineOf orelse))) F
      (Stmt.unplacedAll · = Stmt.unplacedAll orelse) := by
  rw [allKindsOf_optionalBlock]
  split
  · next none =>
    subst none
    exact .next fun n _ => .not_accepted missing (.pure rfl)
  · next some =>
    refine .next fun n hn => .accepted rfl ?_
    rw [List.length_cons] at hn
    exact consumes_block some read .elseWord n (by omega)

theorem allKinds_header (ks : List Kind) (body : List Stmt) :
    (Outline.entry (ks ++ [sym .colon]) (outlineOf body)).allKinds =
      ks ++ sym .colon :: blockAfter body := by
  rw [allKinds, List.append_assoc]
  rfl

/-- What follows a block that may be missing. -/
theorem head_optionalBlock {P : Kind → Prop} {w : Keyword} {k : Kind} (body : List Stmt)
    (some : P (word w)) (none : P k) :
    P ((allKindsOf (optionalBlock w (outlineOf body))).headD k) := by
  rw [allKindsOf_optionalBlock]
  split
  · exact none
  · exact some

/-! ### Statements with blocks -/

variable {test target iter : Expr} {p q : Position}

theorem ends_colon {level : Nat} : Ends level (sym .colon) := Nat.zero_le level

/-- What follows a block with its header: what its statement goes on with, or another statement. -/
theorem consumes_branch {α : Type} {ks : List Kind} {F : Kind → Prop} {Q : α → Prop} {n : Nat}
    {place : Place} {f : List Stmt → Numbering α}
    (some : body ≠ []) (read : BlockRead body) (enough : 12 * (blockAfter body).length + 13 ≤ n)
    (hf : ∀ b, unplacedAll b = unplacedAll body → Consumes (f b) ks F Q) :
    Consumes (block n place >>= f) (sym .colon :: (blockAfter body ++ ks)) F Q := by
  rw [← List.cons_append]
  refine .bind (F := fun _ => True) (consumes_block some read place n ?_) hf fun _ _ => trivial
  rw [List.length_cons]
  omega

theorem consumes_ifStatement (h : (Node.stmt (.cond test body orelse p)).Writable)
    (hbody : BlockRead body) (horelse : BlockRead orelse) :
    ConsumesAll (ifStatement · q) 12 (test.tokens ++ sym .colon :: (blockAfter body ++
      allKindsOf (optionalBlock .elseKw (outlineOf orelse)))) Apart
      (·.unplaced = (Stmt.cond test body orelse p).unplaced) := by
  have htest : (Node.expr test).Writable := h.child (by simp [Node.children, Stmt.parts])
  refine .next fun n hn => ?_
  simp only [List.length_append, List.length_cons] at hn
  refine .first (parses_test htest n (by omega)) (fun e he => ?_) fun _ _ => ends_colon
  refine consumes_branch h.here.1 hbody (by omega) fun b hb => .here fun q => ?_
  refine .not_accepted (fun k hk => ?_) ?_
  · exact head_optionalBlock (P := (· ≠ word .elifKw)) orelse (by simp) hk.1
  · refine .bindLast (consumes_elseBlock horelse (fun _ hk => hk.2.1) n (by omega))
      (fun o ho => .pure ?_) fun _ hk => hk
    simp [unplaced, he, hb, ho]

theorem consumes_cond (h : (Node.stmt (.cond test body orelse p)).Writable)
    (hbody : BlockRead body) (horelse : BlockRead orelse) :
    ConsumesAll statement 15 (allKindsOf (Stmt.cond test body orelse p).outline) Apart
      (unplacedAll · = [(Stmt.cond test body orelse p).unplaced]) := by
  have tokens : allKindsOf (Stmt.cond test body orelse p).outline = word .ifKw ::
      (test.tokens ++ sym .colon :: (blockAfter body ++
        allKindsOf (optionalBlock .elseKw (outlineOf orelse)))) := by
    rw [outline, allKindsOf, ← List.cons_append, allKinds_header]
    simp
  rw [tokens]
  refine .next fun n hn => .here fun q => .peek fun k _ => .advance rfl ?_
  rw [List.length_cons] at hn
  exact .bindLast (consumes_ifStatement h hbody horelse n (by omega))
    (fun s hs => .pure (congrArg (fun t => [t]) hs)) fun _ hk => hk

theorem consumes_whileLoop (h : (Node.stmt (.whileLoop test body orelse p)).Writable)
    (hbody : BlockRead body) (horelse : BlockRead orelse) :
    ConsumesAll statement 15 (allKindsOf (Stmt.whileLoop test body orelse p).outline) Apart
      (unplacedAll · = [(Stmt.whileLoop test body orelse p).unplaced]) := by
  have tokens : allKindsOf (Stmt.whileLoop test body orelse p).outline = word .whileKw ::
      (test.tokens ++ sym .colon :: (blockAfter body ++
        allKindsOf (optionalBlock .elseKw (outlineOf orelse)))) := by
    rw [outline, allKindsOf, ← List.cons_append, allKinds_header]
    simp
  have htest : (Node.expr test).Writable := h.child (by simp [Node.children, Stmt.parts])
  rw [tokens]
  refine .next fun n hn => .here fun q => .peek fun k _ => .advance rfl ?_
  simp only [List.length_append, List.length_cons] at hn
  refine .first (parses_test htest n (by omega)) (fun e he => ?_) fun _ _ => ends_colon
  refine consumes_branch h.here.1 hbody (by omega) fun b hb => ?_
  refine .bindLast (consumes_elseBlock horelse (fun _ hk => hk.2.1) n (by omega))
    (fun o ho => .pure ?_) fun _ hk => hk
  simp [unplaced, unplacedAll, he, hb, ho]

theorem takes_targetList (h : (Node.expr target).Writable)
    (assignable : target.isAssignable = true) :
    Parses targetList 6 target.tokens (· = word .inKw) (·.unplaced = target.unplaced) := by
  intro n hn
  have read := parsed_of_derives (Expr.derives_target h assignable).arith_of_primary n hn
  refine .bindLast read (fun e he => ?_) (by rintro _ rfl; decide)
  exact .isAt_not (by rintro _ rfl; simp) (.pure he)

theorem consumes_forLoop (h : (Node.stmt (.forLoop target iter body orelse p)).Writable)
    (hbody : BlockRead body) (horelse : BlockRead orelse) :
    ConsumesAll statement 15 (allKindsOf (Stmt.forLoop target iter body orelse p).outline) Apart
      (unplacedAll · = [(Stmt.forLoop target iter body orelse p).unplaced]) := by
  have tokens : allKindsOf (Stmt.forLoop target iter body orelse p).outline = word .forKw ::
      (target.tokens ++ word .inKw :: (iter.tokens ++ sym .colon :: (blockAfter body ++
        allKindsOf (optionalBlock .elseKw (outlineOf orelse))))) := by
    have line : word .forKw :: (target.tokens ++ word .inKw :: (iter.tokens ++ [sym .colon])) =
        (word .forKw :: (target.tokens ++ word .inKw :: iter.tokens)) ++ [sym .colon] := by simp
    rw [outline, allKindsOf, line, allKinds_header]
    simp
  obtain ⟨assignable, some⟩ := h.here.1
  have htarget : (Node.expr target).Writable := h.child (by simp [Node.children, Stmt.parts])
  have hiter : (Node.expr iter).Writable := h.child (by simp [Node.children, Stmt.parts])
  rw [tokens]
  refine .next fun n hn => .here fun q => .peek fun k _ => .advance rfl ?_
  simp only [List.length_append, List.length_cons] at hn
  refine .first (takes_targetList htarget assignable n (by omega)) (fun t ht => ?_) fun _ _ => rfl
  have same : Expr.unplacedAll [t] = Expr.unplacedAll [target] := congrArg (fun e => [e]) ht
  have checked : checkTargets .cannotAssign [t] = pure () :=
    checkTargets_eq (assignable_of_unplaced same (by simpa using assignable))
  refine .met checked (.expect rfl ?_)
  refine .first (parses_testList hiter n (by omega)) (fun i hi => ?_)
    fun _ _ => ⟨ends_colon, rfl⟩
  refine consumes_branch some hbody (by omega) fun b hb => ?_
  refine .bindLast (consumes_elseBlock horelse (fun _ hk => hk.2.1) n (by omega))
    (fun o ho => .pure ?_) fun _ hk => hk
  simp [unplaced, unplacedAll, ht, hi, hb, ho]

/-! ### With blocks -/

theorem takes_alias_target {i : WithItem} (h : (Node.withItem i).Writable) {n : Nat}
    (enough : 12 * i.tokens.length + 6 ≤ n) {F : Kind → Prop} (missing : ∀ k, F k → k ≠ word .asKw)
    (ends : ∀ k, F k → Ends 1 k) :
    Takes (following (.keyword .asKw) do
      let target ← arith n
      checkTargets .cannotAssign [target]
      return target) (optional (word .asKw) (i.target.map Expr.tokens)) F
      (·.map Expr.unplaced = i.target.map Expr.unplaced) := by
  refine takes_expression rfl missing fun e he => ?_
  have written : (Node.expr e).Writable := h.child (by simp [Node.children, he])
  have assignable : e.isAssignable = true := h.here.1 e he
  simp only [WithItem.tokens, he, optional, Option.map_some, List.length_append,
    List.length_cons] at enough
  have read := parsed_of_derives (Expr.derives_target written assignable).arith_of_primary n
    (by omega)
  refine .bindLast read (fun t ht => ?_) fun k hk => (ends k hk).mono (by decide)
  have same : Expr.unplacedAll [t] = Expr.unplacedAll [e] := congrArg (fun e => [e]) ht
  rw [checkTargets_eq (assignable_of_unplaced same (by simpa using assignable)), pure_bind]
  exact .pure ht

/-- A list after a comma. -/
theorem flatMap_comma {α : Type} (f : α → List Kind) (a : α) (l : List α) :
    (a :: l).flatMap (sym .comma :: f ·) = sym .comma :: listed ((a :: l).map f) := by
  rw [listed_map]
  rfl

theorem takes_withItems {items : List WithItem} (some : items ≠ [])
    (h : ∀ i ∈ items, (Node.withItem i).Writable) :
    Parses withItems 12 (listed (items.map WithItem.tokens)) (· = sym .colon)
      (·.map WithItem.unplaced = items.map WithItem.unplaced) := by
  induction items with
  | nil => exact absurd rfl some
  | cons i items ih =>
    obtain ⟨written, others⟩ := List.forall_mem_cons.1 h
    have hcontext : (Node.expr i.context).Writable := written.child (by simp [Node.children])
    let Follows (k : Kind) : Prop := k = sym .comma ∨ k = sym .colon
    have ends (k : Kind) (hk : Follows k) : Ends 1 k := by
      rcases hk with rfl | rfl <;> decide
    rw [listed_map, WithItem.tokens, List.append_assoc]
    refine .next fun n hn => ?_
    simp only [List.length_append] at hn
    have follows (k : Kind) (hk : k = sym .colon) :
        Follows ((items.flatMap (sym .comma :: WithItem.tokens ·)).headD k) :=
      head_flatMap_comma _ items (.inl rfl) (.inr hk)
    refine .bind (parses_test hcontext n (by omega)) (fun c hc => ?_) fun k hk => ?_
    · refine .bind (takes_alias_target written ?_ ?_ ends) (fun t ht => ?_) follows
      · rw [WithItem.tokens, List.length_append]
        omega
      · rintro k (rfl | rfl) <;> simp
      · have same : WithItem.unplaced ⟨c, t⟩ = i.unplaced := by simp [WithItem.unplaced, hc, ht]
        cases items with
        | nil => exact .accept_not (by rintro _ rfl; simp) (.pure (congrArg (fun j => [j]) same))
        | cons i' items =>
          rw [flatMap_comma] at hn ⊢
          rw [List.length_cons] at hn
          refine .accept rfl (.bindLast (ih (List.cons_ne_nil _ _) others n (by omega))
            (fun js hjs => .pure ?_) fun _ hk => hk)
          rw [List.map_cons, same, hjs]
          rfl
    · rw [headD_append]
      exact head_optional _ (by decide) (ends _ (follows k hk))

theorem consumes_withBlock {items : List WithItem}
    (h : (Node.stmt (.withBlock items body p)).Writable) (hbody : BlockRead body) :
    ConsumesAll statement 15 (allKindsOf (Stmt.withBlock items body p).outline) Apart
      (unplacedAll · = [(Stmt.withBlock items body p).unplaced]) := by
  have tokens : allKindsOf (Stmt.withBlock items body p).outline = word .withKw ::
      (listed (items.map WithItem.tokens) ++ sym .colon :: (blockAfter body ++ [])) := by
    rw [outline, allKindsOf, ← List.cons_append, allKinds_header]
    simp [allKindsOf]
  have written : ∀ i ∈ items, (Node.withItem i).Writable := fun i hi =>
    h.child (by simp [Node.children, Stmt.parts, hi])
  rw [tokens]
  refine .next fun n hn => .here fun q => .peek fun k _ => .advance rfl ?_
  simp only [List.length_append, List.length_cons] at hn
  refine .first (takes_withItems h.here.1.1 written n (by omega)) (fun is his => ?_) fun _ _ => rfl
  refine consumes_branch h.here.1.2 hbody (by omega) fun b hb => .pure ?_
  simp [unplaced, unplacedAll, his, hb]

/-! ### Except clauses -/

section

variable {kind : Option Expr} {name : Option String}

theorem takes_caught (hkind : ∀ e, kind = some e → (Node.expr e).Writable)
    (named : ∀ s ∈ name, kind ≠ none) :
    Parses caught 11 (caughtTokens kind name) (· = sym .colon)
      fun r => r.1.map Expr.unplaced = kind.map Expr.unplaced ∧ r.2 = name := by
  intro n hn
  cases kind with
  | none =>
    refine .isAt (fun _ hk => hk) (.pure ⟨rfl, ?_⟩)
    cases name with
    | none => rfl
    | some s => exact absurd rfl (named s rfl)
  | some e =>
    simp only [caughtTokens, List.length_append] at hn
    refine .isAt_not (fun k _ => ?_) ?_
    · intro colon
      have begins : opening ((caughtTokens (some e) name).headD k) ≠ 0 :=
        opening_head (hkind e rfl) _ k
      rw [colon] at begins
      exact begins rfl
    · refine .bind (parses_test (hkind e rfl) n (by omega)) (fun e' he => ?_) fun k hk => ?_
      · refine .bindLast (takes_alias (F := (· = sym .colon)) (by rintro _ rfl; simp))
          (fun o ho => .pure ⟨congrArg some he, ho⟩) fun _ hk => hk
      · refine head_optional _ (by decide) ?_
        subst hk
        decide

end

/-- Except clauses are read back up to a token that begins none. -/
def HandlersRead (hs : List Handler) : Prop :=
  ConsumesAll handlers 1 (allKindsOf (outlineOfHandlers hs)) (· ≠ word .exceptKw)
    (unplacedHandlers · = unplacedHandlers hs)

theorem consumes_noHandlers : HandlersRead [] :=
  .next fun _ _ => .here fun _ => .not_accepted (fun _ hk => hk) (.pure rfl)

theorem consumes_handlers {kind : Option Expr} {name : Option String} {hs : List Handler}
    (h : (Node.handler (.clause kind name body p)).Writable) (hbody : BlockRead body)
    (read : HandlersRead hs) : HandlersRead (.clause kind name body p :: hs) := by
  have tokens : allKindsOf (outlineOfHandlers (.clause kind name body p :: hs)) =
      word .exceptKw :: (caughtTokens kind name ++
        sym .colon :: (blockAfter body ++ allKindsOf (outlineOfHandlers hs))) := by
    rw [outlineOfHandlers, allKindsOf, ← List.cons_append, allKinds_header]
    simp
  unfold HandlersRead
  rw [tokens]
  refine .next fun n hn => .here fun p => .accepted rfl ?_
  simp only [List.length_append, List.length_cons] at hn
  have kinds : ∀ e, kind = some e → (Node.expr e).Writable := fun e he =>
    h.child (by simp [Node.children, Handler.kind, he])
  refine .first (takes_caught kinds (fun s hs => (h.here.1.1 s hs).2) n (by omega)) ?_
    fun _ _ => rfl
  rintro ⟨k, o⟩ ⟨hk, ho⟩
  refine consumes_branch h.here.1.2 hbody (by omega) fun b hb => ?_
  refine .bindLast (read n (by omega)) (fun cs hcs => .pure ?_) fun _ hk => hk
  simp only at hk ho
  simp [unplacedHandlers, hk, ho, hb, hcs]

/-! ### Try statements -/

theorem isEmpty_unplacedAll {ss ss' : List Stmt} (same : unplacedAll ss = unplacedAll ss') :
    ss.isEmpty = ss'.isEmpty := by
  cases ss with
  | nil =>
    cases ss' with
    | nil => rfl
    | cons s ss => cases same
  | cons s ss =>
    cases ss' with
    | nil => cases same
    | cons s ss => rfl

theorem isEmpty_unplacedHandlers {hs hs' : List Handler}
    (same : unplacedHandlers hs = unplacedHandlers hs') : hs.isEmpty = hs'.isEmpty := by
  cases hs with
  | nil =>
    cases hs' with
    | nil => rfl
    | cons h hs => cases h; cases same
  | cons h hs =>
    cases hs' with
    | nil => cases h; cases same
    | cons h hs => rfl

section

variable {handlers hs : List Handler} {final b o : List Stmt} {n : Nat}

/-- The end of a try statement, from its finally block. -/
theorem consumes_finally (clauses : handlers ≠ [] ∨ final ≠ []) (hfinal : BlockRead final)
    (enough : 12 * (allKindsOf (optionalBlock .finallyKw (outlineOf final))).length ≤ n)
    (hb : unplacedAll b = unplacedAll body) (hhs : unplacedHandlers hs = unplacedHandlers handlers)
    (ho : unplacedAll o = unplacedAll orelse) :
    Consumes (α := Stmt) (do
      let final ← if ← accept (.keyword .finallyKw) then block n .finallyWord else pure []
      if hs.isEmpty && final.isEmpty then failHere .missingHandler
      else return .tryBlock b hs o final q)
      (allKindsOf (optionalBlock .finallyKw (outlineOf final))) Apart
      (·.unplaced = (Stmt.tryBlock body handlers orelse final p).unplaced) := by
  have done (f : List Stmt) (hf : unplacedAll f = unplacedAll final) :
      Consumes (α := Stmt) (if hs.isEmpty && f.isEmpty then failHere .missingHandler
        else return .tryBlock b hs o f q) [] Apart
        (·.unplaced = (Stmt.tryBlock body handlers orelse final p).unplaced) := by
    rw [isEmpty_unplacedHandlers hhs, isEmpty_unplacedAll hf, if_neg]
    · exact .pure (by simp [unplaced, hb, hhs, ho, hf])
    · simpa [Classical.or_iff_not_imp_left] using clauses
  rw [allKindsOf_optionalBlock] at enough ⊢
  split
  · next none =>
    subst none
    exact .not_accepted (fun _ hk => hk.2.2.2) (done [] rfl)
  · next some =>
    rw [if_neg some, List.length_cons] at enough
    exact .accepted rfl (.bindLast (consumes_block some hfinal .finallyWord n (by omega)) done
      fun _ hk => hk)

theorem consumes_tryStatement (h : (Node.stmt (.tryBlock body handlers orelse final p)).Writable)
    (hbody : BlockRead body) (hhandlers : HandlersRead handlers) (horelse : BlockRead orelse)
    (hfinal : BlockRead final) :
    ConsumesAll (tryStatement · q) 2 (sym .colon :: (blockAfter body ++
      (allKindsOf (outlineOfHandlers handlers) ++
        (allKindsOf (optionalBlock .elseKw (outlineOf orelse)) ++
          allKindsOf (optionalBlock .finallyKw (outlineOf final)))))) Apart
      (·.unplaced = (Stmt.tryBlock body handlers orelse final p).unplaced) := by
  obtain ⟨some, clauses, orelseOnly⟩ := h.here.1
  refine .next fun n hn => ?_
  simp only [List.length_append, List.length_cons] at hn
  have notExcept (k : Kind) (hk : Apart k) :
      (allKindsOf (optionalBlock .elseKw (outlineOf orelse)) ++
        allKindsOf (optionalBlock .finallyKw (outlineOf final))).headD k ≠ word .exceptKw := by
    rw [headD_append]
    refine head_optionalBlock (P := (· ≠ word .exceptKw)) orelse (by simp) ?_
    exact head_optionalBlock (P := (· ≠ word .exceptKw)) final (by simp) hk.2.2.1
  have notElse (k : Kind) (hk : Apart k) :
      (allKindsOf (optionalBlock .finallyKw (outlineOf final))).headD k ≠ word .elseKw :=
    head_optionalBlock (P := (· ≠ word .elseKw)) final (by simp) hk.2.1
  refine consumes_branch some hbody (by omega) fun b hb => ?_
  refine .bind (hhandlers n (by omega)) (fun hs hhs => ?_) notExcept
  have after (o : List Stmt) (ho : unplacedAll o = unplacedAll orelse) :=
    consumes_finally (p := p) (q := q) clauses hfinal (n := n) (by omega) hb hhs ho
  dsimp only
  split
  · next noHandlers =>
    rw [isEmpty_unplacedHandlers hhs, List.isEmpty_iff] at noHandlers
    have none : orelse = [] := by
      by_contra more
      exact orelseOnly more noHandlers
    subst none
    exact after [] rfl
  · exact .bind (consumes_elseBlock horelse (fun _ hk => hk) n (by omega)) after notElse

end

theorem consumes_tryBlock {handlers : List Handler} {final : List Stmt}
    (h : (Node.stmt (.tryBlock body handlers orelse final p)).Writable)
    (hbody : BlockRead body) (hhandlers : HandlersRead handlers) (horelse : BlockRead orelse)
    (hfinal : BlockRead final) :
    ConsumesAll statement 15 (allKindsOf (Stmt.tryBlock body handlers orelse final p).outline) Apart
      (unplacedAll · = [(Stmt.tryBlock body handlers orelse final p).unplaced]) := by
  have tokens : allKindsOf (Stmt.tryBlock body handlers orelse final p).outline =
      word .tryKw :: sym .colon :: (blockAfter body ++ (allKindsOf (outlineOfHandlers handlers) ++
        (allKindsOf (optionalBlock .elseKw (outlineOf orelse)) ++
          allKindsOf (optionalBlock .finallyKw (outlineOf final))))) := by
    rw [outline, allKindsOf, allKindsOf_append, allKindsOf_append]
    rfl
  rw [tokens]
  refine .next fun n hn => .here fun q => .peek fun k _ => .advance rfl ?_
  rw [List.length_cons] at hn
  exact .bindLast (consumes_tryStatement h hbody hhandlers horelse hfinal n (by omega))
    (fun s hs => .pure (congrArg (fun t => [t]) hs)) fun _ hk => hk

/-! ### Definitions -/

theorem takes_decorators {ds : List Expr} (h : ∀ e ∈ ds, (Node.expr e).Writable) :
    Parses decorators 12 (allKindsOf (decoratorLines ds)) (· ≠ sym .atSign)
      (Expr.unplacedAll · = Expr.unplacedAll ds) := by
  induction ds with
  | nil => exact .next fun n _ => .accept_not (fun _ hk => hk) (.pure rfl)
  | cons e ds ih =>
    obtain ⟨first, others⟩ := List.forall_mem_cons.1 h
    have tokens : allKindsOf (decoratorLines (e :: ds)) =
        sym .atSign :: (e.tokens ++ .mark .newline :: allKindsOf (decoratorLines ds)) := by
      change (Outline.entry (sym .atSign :: e.tokens) []).allKinds ++ _ = _
      rw [allKinds, blockKinds, List.append_assoc]
      rfl
    rw [tokens]
    refine .next fun n hn => .accept rfl ?_
    simp only [List.length_append, List.length_cons] at hn
    refine .bind (parses_test first n (by omega)) (fun e' he => .expect rfl ?_)
      fun _ _ => Nat.zero_le 1
    exact .bindLast (ih others n (by omega)) (fun ds' hds => .pure (by simp [he, hds]))
      fun _ hk => hk

/-- What is known of the parameters that are already read when others are to be read. -/
structure Precede (before ps : List Param) : Prop where
  distinct : ∀ b ∈ before, ∀ p ∈ ps, b.name ≠ p.name
  defaults : ∀ b ∈ before, b.default.isSome = true → ∀ p ∈ ps, p.default.isSome = true

theorem Precede.cons {before ps : List Param} {p p' : Param} (h : Precede before (p :: ps))
    (ordered : WellOrdered (p :: ps)) (same : p'.unplaced = p.unplaced) :
    Precede (p' :: before) ps := by
  have name : p'.unplaced.name = p.unplaced.name := by rw [same]
  have default : p'.default.isSome = p.default.isSome := by
    have all : p'.unplaced.default.isSome = p.unplaced.default.isSome := by rw [same]
    simpa [Param.unplaced] using all
  obtain ⟨distinct, defaults⟩ := ordered
  rw [List.map_cons, List.nodup_cons] at distinct
  rw [List.pairwise_cons] at defaults
  constructor
  · intro b hb q hq
    rcases List.mem_cons.1 hb with rfl | hb
    · rintro twice
      exact distinct.1 (List.mem_map.2 ⟨q, hq, twice.symm.trans name⟩)
    · exact h.distinct b hb q (List.mem_cons_of_mem _ hq)
  · intro b hb given q hq
    rcases List.mem_cons.1 hb with rfl | hb
    · exact defaults.1 q hq (default ▸ given)
    · exact h.defaults b hb given q (List.mem_cons_of_mem _ hq)

theorem Precede.default {before ps : List Param} {p : Param} (h : Precede before (p :: ps))
    (given : before.head?.any (·.default.isSome) = true) : p.default.isSome = true := by
  cases before with
  | nil => cases given
  | cons b before => exact h.defaults b List.mem_cons_self given p List.mem_cons_self

theorem takes_parameters (before : List Param) {ps : List Param}
    (h : ∀ p ∈ ps, (Node.param p).Writable)
    (ordered : WellOrdered ps) (precede : Precede before ps) :
    Parses (parameters before) 12 (listed (ps.map Param.tokens)) (· = sym .closeParen)
      (·.map Param.unplaced = ps.map Param.unplaced) := by
  induction ps generalizing before with
  | nil => exact .next fun n _ => .isAt (fun _ hk => hk) (.pure rfl)
  | cons p ps ih =>
    obtain ⟨written, others⟩ := List.forall_mem_cons.1 h
    let Follows (k : Kind) : Prop := k = sym .comma ∨ k = sym .closeParen
    have ends (k : Kind) (hk : Follows k) : Ends 1 k := by
      rcases hk with rfl | rfl <;> decide
    have follows (k : Kind) (hk : k = sym .closeParen) :
        Follows ((ps.flatMap (sym .comma :: Param.tokens ·)).headD k) :=
      head_flatMap_comma _ ps (.inl rfl) (.inr hk)
    rw [listed_map, Param.tokens, List.cons_append, List.append_assoc]
    refine .next fun n hn => ?_
    simp only [List.length_append, List.length_cons] at hn
    refine .isAt_not (fun _ _ => Kind.noConfusion) (.here fun q => .identifier ?_)
    have fresh : before.any (·.name == p.name) = false := by
      simpa using fun b hb => precede.distinct b hb p List.mem_cons_self
    rw [fresh, if_neg Bool.false_ne_true]
    have annotation : Takes (following (.symbol .colon) (test n))
        (optional (sym .colon) (p.annotation.map Expr.tokens))
        (fun k => Follows k ∨ k = sym .assign)
        (·.map Expr.unplaced = p.annotation.map Expr.unplaced) := by
      refine takes_expression rfl (by rintro k ((rfl | rfl) | rfl) <;> simp) fun e he => ?_
      have he' : (Node.expr e).Writable := written.child (by simp [Node.children, he])
      refine (parses_test he' n ?_).mono (fun k hk => ?_) fun _ h => h
      · simp only [he, optional, Option.map_some, List.length_cons] at hn
        omega
      · rcases hk with hk | rfl
        · exact ends k hk
        · decide
    have default : Takes (following (.symbol .assign) (test n))
        (optional (sym .assign) (p.default.map Expr.tokens)) Follows
        (·.map Expr.unplaced = p.default.map Expr.unplaced) := by
      refine takes_expression rfl (by rintro k (rfl | rfl) <;> simp) fun e he => ?_
      have he' : (Node.expr e).Writable := written.child (by simp [Node.children, he])
      refine (parses_test he' n ?_).mono ends fun _ h => h
      simp only [he, optional, Option.map_some, List.length_cons] at hn
      omega
    refine .bind annotation (fun a ha => ?_) fun k hk => ?_
    · refine .bind default (fun d hd => ?_) follows
      have same : Param.unplaced ⟨p.name, a, d, q⟩ = p.unplaced := by
        rw [Param.unplaced, ha, hd]
        rfl
      have given : (d.isNone && before.head?.any (·.default.isSome)) = false := by
        rw [Bool.and_eq_false_iff, or_iff_not_imp_right, Bool.not_eq_false]
        intro earlier
        have some := precede.default earlier
        rw [← Option.isSome_map, ← hd, Option.isSome_map] at some
        simpa using some
      rw [given, if_neg Bool.false_ne_true]
      cases ps with
      | nil => exact .accept_not (by rintro _ rfl; simp) (.pure (congrArg (fun p => [p]) same))
      | cons p' ps =>
        rw [flatMap_comma] at hn ⊢
        rw [List.length_cons] at hn
        have rest := ih _ others ordered.tail (precede.cons ordered same) n (by omega)
        refine .accept rfl (.bindLast rest (fun ps' hps => .pure ?_) fun _ hk => hk)
        rw [List.map_cons, same, hps]
        rfl
    · rw [headD_append]
      exact head_optional (P := fun k => Follows k ∨ k = sym .assign) _ (.inr rfl)
        (.inl (follows k hk))

theorem consumes_functionDefinition {head : FunctionHead} {ds : List Expr}
    (h : (Node.stmt (.function head body)).Writable) (hbody : BlockRead body)
    (hds : Expr.unplacedAll ds = Expr.unplacedAll head.decorators) :
    ConsumesAll (functionDefinition · head.isAsync ds q) 1
      (.name head.name :: sym .openParen :: (listed (head.params.map Param.tokens) ++
        sym .closeParen :: (optional (sym .arrow) (head.returns.map Expr.tokens) ++
          sym .colon :: (blockAfter body ++ [])))) Apart
      (·.unplaced = (Stmt.function head body).unplaced) := by
  obtain ⟨-, ordered, some⟩ := h.here.1
  have written : ∀ p ∈ head.params, (Node.param p).Writable := fun p hp =>
    h.child (by simp [Node.children, Stmt.parts, hp])
  refine .next fun n hn => .identifier (.freshCode fun code => .expect rfl ?_)
  simp only [List.length_append, List.length_cons] at hn
  have params := takes_parameters [] written ordered ⟨nofun, nofun⟩ n (by omega)
  have returns : Takes (following (.symbol .arrow) (test n))
      (optional (sym .arrow) (head.returns.map Expr.tokens)) (· = sym .colon)
      (·.map Expr.unplaced = head.returns.map Expr.unplaced) := by
    refine takes_expression rfl (by rintro _ rfl; simp) fun e he => ?_
    have he' : (Node.expr e).Writable := h.child (by simp [Node.children, Stmt.parts, he])
    refine (parses_test he' n ?_).mono (by rintro _ rfl; exact ends_colon) fun _ h => h
    simp only [he, optional, Option.map_some, List.length_cons] at hn
    omega
  refine .first params (fun ps hps => .expect rfl ?_) fun _ _ => rfl
  refine .first returns (fun r hr => ?_) fun _ _ => rfl
  refine consumes_branch some hbody (by omega) fun b hb => .lastLine fun l => .pure ?_
  simp [unplaced, FunctionHead.unplaced, hps, hr, hb, hds]

theorem consumes_classDefinition {head : ClassHead} {ds : List Expr}
    (h : (Node.stmt (.classDef head body)).Writable) (hbody : BlockRead body)
    (hds : Expr.unplacedAll ds = Expr.unplacedAll head.decorators) :
    ConsumesAll (classDefinition · ds q) 1
      (.name head.name :: ((if head.bases.isEmpty then []
        else sym .openParen :: (Expr.tokensOf (sym .comma) head.bases ++ [sym .closeParen])) ++
        sym .colon :: (blockAfter body ++ []))) Apart
      (·.unplaced = (Stmt.classDef head body).unplaced) := by
  have atoms : ∀ e ∈ head.bases, e.IsAtom := fun e he =>
    Expr.isAtom (h.child (by simp [Node.children, Stmt.parts, he]))
  refine .next fun n hn => .identifier (.freshCode fun code => ?_)
  simp only [List.length_append, List.length_cons] at hn
  have bases : Takes (baseClasses n) (if head.bases.isEmpty then []
      else sym .openParen :: (Expr.tokensOf (sym .comma) head.bases ++ [sym .closeParen]))
      (· = sym .colon) (Expr.unplacedAll · = Expr.unplacedAll head.bases) := by
    unfold baseClasses
    split at hn
    · next none =>
      rw [List.isEmpty_iff.1 none]
      exact .accept_not (by rintro _ rfl; simp) (.pure rfl)
    · next some =>
      rw [if_neg some]
      simp only [List.length_append, List.length_cons] at hn
      have items := (parsed_of_derives (Expr.derives_items atoms)).testsUntil .closeParen (.inl rfl)
        n (by omega)
      exact .accept rfl (.bind items (fun es hes => .expect rfl (.pure hes)) fun _ _ => rfl)
  refine .first bases (fun es hes => ?_) fun _ _ => rfl
  refine consumes_branch h.here.1.2 hbody (by split at hn <;> simp at hn <;> omega) fun b hb =>
    .lastLine fun l => .pure ?_
  simp [unplaced, ClassHead.unplaced, hes, hb, hds]

/-- The token begins a definition. -/
def BeginsDefinition (k : Kind) : Prop :=
  k = sym .atSign ∨ k = word .defKw ∨ k = word .asyncKw ∨ k = word .classKw

theorem beginsDefinition_decorated {os : List Outline} {k : Kind} (ds : List Expr)
    (begins : BeginsDefinition ((allKindsOf os).headD k)) :
    BeginsDefinition ((allKindsOf (decoratorLines ds ++ os)).headD k) := by
  cases ds with
  | nil => exact begins
  | cons e ds => exact .inl rfl

/-- A statement that begins as definitions do is one. -/
theorem consumes_defined {s : Stmt} {ks : List Kind} (begins : ∀ k, BeginsDefinition (ks.headD k))
    (read : ConsumesAll definition 14 ks Apart (·.unplaced = s.unplaced)) :
    ConsumesAll statement 15 ks Apart (unplacedAll · = [s.unplaced]) := by
  refine .next fun n hn => .here fun p => .peek fun k _ => ?_
  have one : Consumes (definition n >>= fun s => pure [s]) ks Apart
      (unplacedAll · = [s.unplaced]) :=
    .bindLast (read n hn) (fun t ht => .pure (congrArg (fun t => [t]) ht)) fun _ hk => hk
  rcases begins k with eq | eq | eq | eq <;> rw [eq] <;> exact one

theorem consumes_function {head : FunctionHead} (h : (Node.stmt (.function head body)).Writable)
    (hbody : BlockRead body) :
    ConsumesAll definition 14 (allKindsOf (Stmt.function head body).outline) Apart
      (·.unplaced = (Stmt.function head body).unplaced) := by
  have tokens : allKindsOf (Stmt.function head body).outline =
      allKindsOf (decoratorLines head.decorators) ++
        ((if head.isAsync then [word .asyncKw] else []) ++ word .defKw ::
          (.name head.name :: sym .openParen :: (listed (head.params.map Param.tokens) ++
            sym .closeParen :: (optional (sym .arrow) (head.returns.map Expr.tokens) ++
              sym .colon :: (blockAfter body ++ []))))) := by
    have line : head.tokens = ((if head.isAsync then [word .asyncKw] else []) ++ word .defKw ::
        .name head.name :: sym .openParen :: (listed (head.params.map Param.tokens) ++
          sym .closeParen :: optional (sym .arrow) (head.returns.map Expr.tokens))) ++
            [sym .colon] := by simp [FunctionHead.tokens]
    rw [outline, allKindsOf_append, allKindsOf, line, allKinds_header]
    simp [allKindsOf]
  have hds : ∀ e ∈ head.decorators, (Node.expr e).Writable := fun e he =>
    h.child (by simp [Node.children, Stmt.parts, he])
  rw [tokens]
  refine .next fun n hn => ?_
  rw [List.length_append, List.length_append, List.length_cons] at hn
  refine .first (takes_decorators hds n (by omega)) (fun ds same => .here fun p => .peek ?_) ?_
  · intro k _
    have read := consumes_functionDefinition (q := p) h hbody same n (by omega)
    cases async : head.isAsync with
    | false =>
      rw [async] at read
      exact .advance rfl read
    | true =>
      rw [async] at read
      exact .advance rfl (.expect rfl read)
  · intro k _
    cases head.isAsync <;> simp

theorem consumes_class {head : ClassHead} (h : (Node.stmt (.classDef head body)).Writable)
    (hbody : BlockRead body) :
    ConsumesAll definition 14 (allKindsOf (Stmt.classDef head body).outline) Apart
      (·.unplaced = (Stmt.classDef head body).unplaced) := by
  have tokens : allKindsOf (Stmt.classDef head body).outline =
      allKindsOf (decoratorLines head.decorators) ++ word .classKw ::
        (.name head.name :: ((if head.bases.isEmpty then []
          else sym .openParen :: (Expr.tokensOf (sym .comma) head.bases ++ [sym .closeParen])) ++
          sym .colon :: (blockAfter body ++ []))) := by
    rw [outline, allKindsOf_append, allKindsOf, ClassHead.tokens, ← List.cons_append,
      ← List.cons_append, allKinds_header]
    simp [allKindsOf]
  have hds : ∀ e ∈ head.decorators, (Node.expr e).Writable := fun e he =>
    h.child (by simp [Node.children, Stmt.parts, he])
  rw [tokens]
  refine .next fun n hn => ?_
  rw [List.length_append, List.length_cons] at hn
  refine .first (takes_decorators hds n (by omega)) (fun ds same => .here fun p => .peek ?_)
    fun _ _ => by simp
  exact fun k _ => .advance rfl (consumes_classDefinition h hbody same n (by omega))

/-! ### All statements -/

theorem Consumes.lift {α : Type} {x : Parse α} {ks : List Kind} {F : Kind → Prop} {Q : α → Prop}
    (h : Takes x ks F Q) : Consumes (liftM x) ks F Q :=
  fun code =>
    have passed : Takes (x >>= fun a => Pure.pure (a, code)) ks F fun r => Q r.1 :=
      h.bindLast (fun _ ha => .pure ha) fun _ hk => hk
    passed

/-- A line that begins as simple statements do is read as one. -/
theorem consumes_line {ks : List Kind} {s : Stmt} (leads : ∀ k, Leads (ks.headD k))
    (read : Parses smallStatement 13 ks AtEnd (·.unplaced = s)) :
    ConsumesAll statement 15 (ks ++ [.mark .newline]) Apart (unplacedAll · = [s]) := by
  refine .next fun n hn => .here fun p => .peek fun k _ => ?_
  have line : Consumes (liftM (simpleStatements n)) (ks ++ [.mark .newline]) Apart
      (unplacedAll · = [s]) := .lift (parses_simpleStatements read n hn)
  have begins := leads (.mark .newline)
  rw [headD_append, List.headD_cons]
  split
  case h_12 => exact line
  all_goals
    next first =>
      rw [first] at begins
      exact absurd rfl (begins.ne rfl (by simp [simpleWords]))

theorem consumes_simple {s : Stmt} (simple : Node.isSimple s = true) (h : (Node.stmt s).Writable) :
    ConsumesAll statement 15 (allKindsOf s.outline) Apart (unplacedAll · = [s.unplaced]) := by
  rw [allKindsOf_simple simple]
  exact consumes_line (leads_tokens simple h) (parses_smallStatement simple h)

theorem unplacedAll_append (ss ss' : List Stmt) :
    unplacedAll (ss ++ ss') = unplacedAll ss ++ unplacedAll ss' := by
  induction ss with
  | nil => rfl
  | cons s ss ih => rw [List.cons_append, unplacedAll, unplacedAll, ih, List.cons_append]

/-- What follows a statement is another one or what follows all of them. -/
theorem begins_outlineOf {P : Kind → Prop} {ss : List Stmt} {k : Kind}
    (h : ∀ s ∈ ss, (Node.stmt s).Writable)
    (begins : ∀ k, Begins k → P k) (ends : P k) : P ((allKindsOf (outlineOf ss)).headD k) := by
  cases ss with
  | nil => exact ends
  | cons s ss =>
    obtain ⟨k, ks, eq, hk⟩ := begins_outline s (h s List.mem_cons_self)
    rw [outlineOf, allKindsOf_append, eq]
    exact begins k hk

theorem consumes_noStatements : BlockRead [] := by
  refine .next fun n _ => .isAt (b := true) (by rintro _ rfl; rfl) ?_
  exact .isAt (b := false) (by rintro _ rfl; rfl) (.pure rfl)

/-- A statement and what comes after it up to a token that belongs to none. -/
theorem consumes_first {s : Stmt} {ks : List Kind} {ss : List Stmt} {rest : Numbering (List Stmt)}
    {n : Nat} {last : Kind} (apart : Apart last) (hss : ∀ t ∈ ss, (Node.stmt t).Writable)
    (first : Consumes (statement n) ks Apart (unplacedAll · = [s]))
    (others : Consumes rest (allKindsOf (outlineOf ss)) (· = last)
      (unplacedAll · = unplacedAll ss)) :
    Consumes (do
      let first ← statement n
      return first ++ (← rest)) (ks ++ allKindsOf (outlineOf ss)) (· = last)
      (unplacedAll · = s :: unplacedAll ss) := by
  refine .bind first (fun ts hts => ?_) fun k hk =>
    begins_outlineOf hss (fun _ => Begins.apart) (hk ▸ apart)
  refine .bindLast others (fun ts' hts' => .pure ?_) fun _ hk => hk
  rw [unplacedAll_append, hts, hts']
  rfl

theorem length_outline_pos {s : Stmt} (h : (Node.stmt s).Writable) :
    0 < (allKindsOf s.outline).length := by
  obtain ⟨k, ks, eq, -⟩ := begins_outline s h
  rw [eq]
  exact Nat.succ_pos _

theorem consumes_statements {s : Stmt} {ss : List Stmt} (hs : (Node.stmt s).Writable)
    (hss : ∀ t ∈ ss, (Node.stmt t).Writable)
    (first : ConsumesAll statement 15 (allKindsOf s.outline) Apart (unplacedAll · = [s.unplaced]))
    (others : BlockRead ss) : BlockRead (s :: ss) := by
  have some := length_outline_pos hs
  have begins (k : Kind) :
      Begins ((allKindsOf s.outline ++ allKindsOf (outlineOf ss)).headD k) := by
    obtain ⟨k, ks, eq, begins⟩ := begins_outline s hs
    rw [eq]
    exact begins
  unfold BlockRead
  rw [outlineOf, allKindsOf_append]
  refine .next fun n hn => .isAt (fun k _ => (begins k).inside)
    (.isAt (fun k _ => (begins k).before) ?_)
  rw [List.length_append] at hn
  exact consumes_first (by simp [Apart]) hss (first n (by omega)) (others n (by omega))

mutual

/-- A statement is read back from its lines. -/
theorem consumes_statement (s : Stmt) (h : (Node.stmt s).Writable) :
    ConsumesAll statement 15 (allKindsOf s.outline) Apart (unplacedAll · = [s.unplaced]) := by
  cases s with
  | function head body =>
    have block := blockRead body fun s hs => h.child (by simp [Node.children, parts, hs])
    refine consumes_defined (fun k => beginsDefinition_decorated _ ?_) (consumes_function h block)
    rw [FunctionHead.tokens]
    split
    · exact .inr (.inr (.inl rfl))
    · exact .inr (.inl rfl)
  | classDef head body =>
    have block := blockRead body fun s hs => h.child (by simp [Node.children, parts, hs])
    exact consumes_defined (fun k => beginsDefinition_decorated _ (.inr (.inr (.inr rfl))))
      (consumes_class h block)
  | forLoop target iter body orelse p =>
    have block := blockRead body fun s hs => h.child (by simp [Node.children, parts, hs])
    have other := blockRead orelse fun s hs => h.child (by simp [Node.children, parts, hs])
    exact consumes_forLoop h block other
  | whileLoop test body orelse p =>
    have block := blockRead body fun s hs => h.child (by simp [Node.children, parts, hs])
    have other := blockRead orelse fun s hs => h.child (by simp [Node.children, parts, hs])
    exact consumes_whileLoop h block other
  | cond test body orelse p =>
    have block := blockRead body fun s hs => h.child (by simp [Node.children, parts, hs])
    have other := blockRead orelse fun s hs => h.child (by simp [Node.children, parts, hs])
    exact consumes_cond h block other
  | withBlock items body p =>
    have block := blockRead body fun s hs => h.child (by simp [Node.children, parts, hs])
    exact consumes_withBlock h block
  | tryBlock body handlers orelse final p =>
    have block := blockRead body fun s hs => h.child (by simp [Node.children, parts, hs])
    have clauses := handlersRead handlers fun c hc => h.child (by simp [Node.children, parts, hc])
    have other := blockRead orelse fun s hs => h.child (by simp [Node.children, parts, hs])
    have last := blockRead final fun s hs => h.child (by simp [Node.children, parts, hs])
    exact consumes_tryBlock h block clauses other last
  | _ => exact consumes_simple rfl h

theorem blockRead : (ss : List Stmt) → (∀ s ∈ ss, (Node.stmt s).Writable) → BlockRead ss
  | [], _ => consumes_noStatements
  | s :: ss, h => by
    obtain ⟨first, others⟩ := List.forall_mem_cons.1 h
    exact consumes_statements first others (consumes_statement s first) (blockRead ss others)

theorem handlersRead : (hs : List Handler) → (∀ h ∈ hs, (Node.handler h).Writable) →
    HandlersRead hs
  | [], _ => consumes_noHandlers
  | .clause kind name body p :: hs, h => by
    obtain ⟨first, others⟩ := List.forall_mem_cons.1 h
    have block := blockRead body fun s hs =>
      first.child (by simp [Node.children, Handler.body, hs])
    exact consumes_handlers first block (handlersRead hs others)

end

theorem consumes_noProgram : ConsumesAll program 16 [] (· = .mark .endOfFile)
    (unplacedAll · = []) :=
  .next fun n _ => .isAt (b := true) (by rintro _ rfl; rfl) (.pure rfl)

/-- A script that is one line is read back. -/
theorem consumes_alone {ks : List Kind} {s : Stmt} (leads : ∀ k, Leads (ks.headD k))
    (read : Parses smallStatement 13 ks AtEnd (·.unplaced = s)) :
    ConsumesAll program 16 (ks ++ [.mark .newline]) (· = .mark .endOfFile)
      (unplacedAll · = [s]) := by
  refine .next fun n hn => .isAt (b := false) (fun k _ => ?_) ?_
  · rw [headD_append]
    exact (leads _).begins.before
  · have line := consumes_line leads read n hn
    rw [List.length_append, List.length_singleton] at hn
    have all := consumes_first (by simp [Apart]) (fun t ht => absurd ht List.not_mem_nil) line
      (consumes_noProgram n (by rw [List.length_nil]; omega))
    rwa [outlineOf, allKindsOf, List.append_nil] at all

/-- A script is read back from the lines of its statements. -/
theorem consumes_program (ss : List Stmt) (h : ∀ s ∈ ss, (Node.stmt s).Writable) :
    ConsumesAll program 16 (allKindsOf (outlineOf ss)) (· = .mark .endOfFile)
      (unplacedAll · = unplacedAll ss) := by
  induction ss with
  | nil => exact consumes_noProgram
  | cons s ss ih =>
    obtain ⟨hs, hss⟩ := List.forall_mem_cons.1 h
    have some := length_outline_pos hs
    rw [outlineOf, allKindsOf_append]
    refine .next fun n hn => .isAt (b := false) (fun k _ => ?_) ?_
    · obtain ⟨k, ks, eq, begins⟩ := begins_outline s hs
      rw [eq]
      exact begins.before
    · rw [List.length_append] at hn
      exact consumes_first (by simp [Apart]) hss (consumes_statement s hs n (by omega))
        (ih hss n (by omega))

end

/-- A source is parsed if its tokens are passed. -/
theorem parse_of_consumes {source : String} {ts : List Token} {ks : List Kind}
    {Q : List Stmt → Prop} (tokens : tokenize source = .ok ts)
    (kinds : ts.map Token.kind = ks ++ [.mark .endOfFile])
    (read : ConsumesAll program 16 ks (· = .mark .endOfFile) Q) :
    ∃ body, parse source = .ok ⟨body⟩ ∧ Q body := by
  obtain ⟨p, last, rfl, hp, hlast⟩ := List.map_eq_append_iff.1 kinds
  obtain ⟨eof, rfl, ended⟩ := List.map_eq_singleton_iff.1 hlast
  have length := congrArg List.length hp
  rw [List.length_map] at length
  have passed := read (depthFor (p ++ [eof]).length)
    (by rw [depthFor, List.length_append, List.length_singleton]; omega)
  have ahead : (Cursor.ofTokens (p ++ [eof])).ahead = p ++ eof :: [] := by
    cases p <;> rfl
  obtain ⟨r, c, parsed, -, same⟩ := passed (topCode + 1) hp ended ahead
  refine ⟨r.1, ?_, same⟩
  rw [parse, tokens]
  change (program _ _ _).map _ = _
  rw [parsed]
  rfl

end Parser

end Footprint
