import Footprint.Proofs.TrackedExpressions

set_option autoImplicit false

/-!
The parsers of statements and of whole scripts on tokens that have been moved.
-/

namespace Footprint.Parser

open Token

variable {m : Relocation} {settled : Prop} {n budget : Nat}

/-! ### Simple statements -/

theorem tracks_checkTargets {f : Fault} (other : f ≠ .nestingTooDeep) (es : List Expr) :
    Tracks m settled Whatever false budget id (checkTargets f es)
      (checkTargets f (Expr.movedAll m es)) := by
  induction es with
  | nil => exact .pure rfl
  | cons e es ih =>
    unfold checkTargets
    rw [Expr.movedAll]
    dsimp only
    rw [Expr.isAssignable_moved, Expr.pos_moved]
    split
    · exact ih
    · exact .fail other e.pos

theorem tracks_checkSingle {f : Fault} (other : f ≠ .nestingTooDeep) (e : Expr) :
    Tracks m settled Whatever false budget id (checkSingle f e) (checkSingle f (e.moved m)) := by
  unfold checkSingle
  rw [Expr.isSingleTarget_moved, Expr.pos_moved]
  split
  · exact .pure rfl
  · exact .fail other e.pos

theorem tracked_moreNames (h : budget ≤ n) :
    Tracked m settled false budget id (moreNames n) := by
  induction n generalizing budget with
  | zero => exact tracks_tooDeep h
  | succ n ih =>
    unfold moreNames
    exact .separated .identifier (ih (by omega)) (fun _ _ => rfl) rfl

theorem tracked_nameList (h : budget ≤ n) : Tracked m settled true budget id (nameList n) := by
  unfold nameList
  exact .pass .identifier fun name => .bind (tracked_moreNames (by omega)) fun names => .pure rfl

theorem tracked_moreComponents (h : budget ≤ n) :
    Tracked m settled false budget id (moreComponents n) := by
  induction n generalizing budget with
  | zero => exact tracks_tooDeep h
  | succ n ih =>
    unfold moreComponents
    exact .separated .identifier (ih (by omega)) (fun _ _ => rfl) rfl

theorem tracked_dottedName (h : budget ≤ n) : Tracked m settled true budget id (dottedName n) := by
  unfold dottedName
  exact .pass .identifier fun name => .bind (tracked_moreComponents (by omega)) fun _ => .pure rfl

section

variable {name : Parse String}

theorem tracked_importItem (hname : Tracked m settled true budget id name) :
    Tracked m settled true budget (Import.moved m) (importItem name) := by
  unfold importItem
  refine .here fun p => .pass hname fun name => .bind (.following .identifier) fun asName => ?_
  exact .pure (by simp [Import.moved])

theorem tracked_moreImports (hname : Tracked m settled true budget id name) (h : budget ≤ n) :
    Tracked m settled false budget (List.map (Import.moved m)) (moreImports name n) := by
  induction n generalizing budget with
  | zero => exact tracks_tooDeep h
  | succ n ih =>
    have less : budget - 20 ≤ budget := Nat.sub_le _ _
    unfold moreImports
    have more := ih (hname.within less) (by omega)
    exact .separated (tracked_importItem (hname.within less)) more (fun _ _ => rfl) rfl

theorem tracked_importList (hname : Tracked m settled true budget id name) (h : budget ≤ n) :
    Tracked m settled true budget (List.map (Import.moved m)) (importList name n) := by
  have less : budget - 20 ≤ budget := Nat.sub_le _ _
  unfold importList
  refine .pass (tracked_importItem hname) fun item => ?_
  exact .bind (tracked_moreImports (hname.within less) (by omega)) fun items => .pure rfl

end

theorem tracked_enclosedImports (h : budget ≤ n) :
    Tracked m settled true budget (List.map (Import.moved m)) (enclosedImports n) := by
  induction n generalizing budget with
  | zero => exact tracks_tooDeep h
  | succ n ih =>
    unfold enclosedImports
    refine .pass (tracked_importItem .identifier) fun item => ?_
    refine .accept (.isAt fun ended => ?_) (.pure rfl)
    split
    · exact .pure rfl
    · exact .bind (ih (by omega)) fun items => .pure rfl

theorem tracked_leadingDots (h : budget ≤ n) :
    Tracked m settled false budget id (leadingDots n) := by
  induction n generalizing budget with
  | zero => exact tracks_tooDeep h
  | succ n ih =>
    unfold leadingDots
    exact .accept (.bind (ih (by omega)) fun dots => .pure rfl) (.pure rfl)

theorem tracked_moduleName (h : budget ≤ n) :
    Tracked m settled false budget id (moduleName n) := by
  unfold moduleName
  refine .bind (tracked_leadingDots h) fun dots => .isAt fun ended => ?_
  split
  · exact .pure rfl
  · exact .bind (tracked_dottedName h) fun name => .pure rfl

theorem tracks_importFrom (p : Position) (h : budget ≤ n) :
    Tracks m settled Whatever true budget (Stmt.moved m) (importFrom n p)
      (importFrom n (m.position p)) := by
  unfold importFrom
  refine .bind (tracked_moduleName h) fun source => .pass .expect fun _ => .here fun star => ?_
  refine .accept (.pure rfl) (.accept ?_ ?_)
  · refine .bind (tracked_enclosedImports (by omega)) fun names => ?_
    exact .bind .expect fun _ => .pure rfl
  · exact .bind (tracked_importList .identifier (by omega)) fun names => .pure rfl

theorem tracked_moreDeleted (h : budget ≤ n) :
    Tracked m settled false budget (Expr.movedAll m) (moreDeleted n) := by
  induction n generalizing budget with
  | zero => exact tracks_tooDeep h
  | succ n ih =>
    unfold moreDeleted
    refine .accept (.isAtStatementEnd fun ended => ?_) (.pure rfl)
    split
    · exact .pure rfl
    · refine .bind ((allTrack m n).test (by omega)) fun e => ?_
      exact .bind (ih (by omega)) fun es => .pure rfl

theorem tracked_assigned (h : budget ≤ n - 13) :
    Tracked m settled true budget (Prod.map (Expr.movedAll m) (Expr.moved m)) (assigned n) := by
  induction n generalizing budget with
  | zero => exact tracks_tooDeep (by omega)
  | succ n ih =>
    unfold assigned
    refine .pass ((allTrack m n).testList (by omega)) fun next => .accept ?_ (.pure rfl)
    exact .bind (ih (by omega)) fun r => .pure rfl

theorem tracks_expressionStatement (p : Position) (h : budget ≤ n - 12) :
    Tracks m settled Whatever true budget (Stmt.moved m) (expressionStatement n p)
      (expressionStatement n (m.position p)) := by
  have all := allTrack m n
  unfold expressionStatement
  refine .pass (all.testList h) fun first => .accept ?_ (.peek fun k _ => ?_)
  · refine .bind (tracked_assigned (by omega)) fun r => ?_
    exact .bind (tracks_checkTargets (by nofun) (first :: r.1)) fun _ => .pure rfl
  · split
    · next op found =>
      have other : k ≠ .mark .endOfFile := by
        rintro rfl
        cases found
      refine .pass (.advance other) fun _ => .bind (tracks_checkSingle (by nofun) first) fun _ => ?_
      exact .bind (all.testList (by omega)) fun value => .pure rfl
    · refine .accept ?_ (.pure rfl)
      refine .bind (tracks_checkSingle (by nofun) first) fun _ => ?_
      refine .bind (all.test (by omega)) fun annotation => ?_
      exact .bind (.following (all.testList (by omega))) fun value => .pure rfl

theorem tracked_smallStatement (h : budget ≤ n - 12) :
    Tracked m settled true budget (Stmt.moved m) (smallStatement n) := by
  have all := allTrack m n
  unfold smallStatement
  refine .here fun p => .peek fun k _ => ?_
  split
  case h_1 | h_2 | h_3 => exact .pass (.advance nofun) fun _ => .pure rfl
  case h_4 =>
    refine .pass (.advance nofun) fun _ => .isAtStatementEnd fun ended => ?_
    split
    · exact .pure rfl
    · exact .bind (all.testList (by omega)) fun value => .pure rfl
  case h_5 =>
    refine .pass (.advance nofun) fun _ => .bind (all.test (by omega)) fun first => ?_
    refine .bind (tracked_moreDeleted (by omega)) fun others => ?_
    exact .bind (tracks_checkTargets (by nofun) (first :: others)) fun _ => .pure rfl
  case h_6 =>
    refine .pass (.advance nofun) fun _ => .isAtStatementEnd fun ended => ?_
    split
    · exact .pure rfl
    · exact .bind (all.test (by omega)) fun value => .pure rfl
  case h_7 =>
    refine .pass (.advance nofun) fun _ => .bind (all.test (by omega)) fun condition => ?_
    exact .bind (.following (all.test (by omega))) fun message => .pure rfl
  case h_8 =>
    refine .pass (.advance nofun) fun _ => ?_
    have names : Tracked m settled true n (List.map (Import.moved m))
        (importList (dottedName n) n) :=
      tracked_importList (tracked_dottedName (Nat.le_refl n)) (Nat.le_refl n)
    exact .bind (names.within (by omega)) fun names => .pure rfl
  case h_9 => exact .pass (.advance nofun) fun _ => (tracks_importFrom p (by omega)).lax
  case h_10 | h_11 =>
    refine .pass (.advance nofun) fun _ => ?_
    exact .bind (tracked_nameList (by omega)) fun names => .pure rfl
  case h_12 => exact (tracks_expressionStatement p h).anyhow

theorem tracked_moreSmall (h : budget ≤ n) :
    Tracked m settled false budget (Stmt.movedAll m) (moreSmall n) := by
  induction n generalizing budget with
  | zero => exact tracks_tooDeep h
  | succ n ih =>
    unfold moreSmall
    refine .accept (.isAt fun atNewline => .isAt fun atEnd => ?_) (.pure rfl)
    split
    · exact .pure rfl
    · refine .bind (tracked_smallStatement (by omega)) fun s => ?_
      exact .bind (ih (by omega)) fun ss => .pure rfl

theorem tracked_simpleStatements (h : budget ≤ n - 12) :
    Tracked m settled true budget (Stmt.movedAll m) (simpleStatements n) := by
  unfold simpleStatements
  refine .pass (tracked_smallStatement h) fun first => ?_
  refine .bind (tracked_moreSmall (by omega)) fun others => .isAt fun atEnd => ?_
  dsimp only
  split
  · exact .pure rfl
  · exact .bind .expect fun _ => .pure rfl

/-! ### Headers -/

theorem tracks_parameters (before : List Param) (h : budget ≤ n) :
    Tracks m settled Whatever false budget (List.map (Param.moved m)) (parameters before n)
      (parameters (before.map (Param.moved m)) n) := by
  induction n generalizing budget before with
  | zero => exact tracks_tooDeep h
  | succ n ih =>
    unfold parameters
    refine .isAt fun ended => ?_
    split
    · exact .pure rfl
    · refine .here fun p => .pass .identifier fun name => ?_
      have same : (before.map (Param.moved m)).any (·.name == id name) =
          before.any (·.name == name) := List.any_map
      rw [same]
      split
      · exact .fail (by simp) p
      · refine .bind (.following ((allTrack m n).test (by omega))) fun annotation => ?_
        refine .bind (.following ((allTrack m n).test (by omega))) fun default => ?_
        have late : ((default.map (Expr.moved m)).isNone &&
            (before.map (Param.moved m)).head?.any (·.default.isSome)) =
              (default.isNone && before.head?.any (·.default.isSome)) := by
          cases default <;> cases before <;> simp [Param.moved]
        rw [late]
        split
        · exact .fail (by simp) p
        · dsimp only
          refine .accept ?_ (.pure rfl)
          have more := ih (⟨name, annotation, default, p⟩ :: before)
            (show budget - 20 - 20 ≤ n by omega)
          exact .bind more fun others => .pure rfl

theorem tracked_decorators (h : budget ≤ n) :
    Tracked m settled false budget (Expr.movedAll m) (decorators n) := by
  induction n generalizing budget with
  | zero => exact tracks_tooDeep h
  | succ n ih =>
    unfold decorators
    refine .accept ?_ (.pure rfl)
    refine .bind ((allTrack m n).test (by omega)) fun e => .bind .expect fun _ => ?_
    exact .bind (ih (by omega)) fun es => .pure rfl

theorem tracked_withItems (h : budget ≤ n - 12) :
    Tracked m settled true budget (List.map (WithItem.moved m)) (withItems n) := by
  induction n generalizing budget with
  | zero => exact tracks_tooDeep (by omega)
  | succ n ih =>
    have target {budget : Nat} (h : budget ≤ n - 6) :
        Tracked m settled true budget (Expr.moved m) (do
          let target ← arith n
          checkTargets .cannotAssign [target]
          return target) :=
      .pass ((allTrack m n).arith h) fun target =>
        .bind (tracks_checkTargets (by nofun) [target]) fun _ => .pure rfl
    unfold withItems
    refine .pass ((allTrack m n).test (by omega)) fun context => ?_
    refine .bind (.following (target (by omega))) fun target => .accept ?_ (.pure rfl)
    exact .bind (ih (by omega)) fun items => .pure rfl

theorem tracked_caught (h : budget ≤ n - 11) :
    Tracked m settled false budget (Prod.map (Option.map (Expr.moved m)) id) (caught n) := by
  unfold caught
  refine .isAt fun ended => ?_
  split
  · exact .pure rfl
  · refine .bind ((allTrack m n).test h) fun kind => .bind (.following .identifier) fun name => ?_
    exact .pure (by simp)

theorem tracked_baseClasses (h : budget ≤ n) :
    Tracked m settled false budget (Expr.movedAll m) (baseClasses n) := by
  unfold baseClasses
  refine .accept ?_ (.pure rfl)
  refine .bind ((allTrack m n).testsUntil _ (by omega)) fun bases => ?_
  exact .bind .expect fun _ => .pure rfl

/-! ### Statements with blocks -/

/-- `Tracks` for parsers that number definitions, whatever the numbers. -/
def TracksOn {α β : Type} (m : Relocation) (settled : Prop) (ahead : Kind → Prop) (strict : Bool)
    (budget : Nat) (g : α → β) (x : Numbering α) (y : Numbering β) : Prop :=
  ∀ code, Tracks m settled ahead strict budget (Prod.map g id) (x code) (y code)

abbrev TrackedOn {α : Type} (m : Relocation) (settled : Prop) (strict : Bool) (budget : Nat)
    (g : α → α) (x : Numbering α) : Prop := TracksOn m settled Whatever strict budget g x x

namespace TracksOn

variable {α β γ δ : Type} {K : Kind → Prop} {strict strict' : Bool} {g : α → β} {h : γ → δ}

theorem lax {x : Numbering α} {y : Numbering β} (hx : TracksOn m settled K strict budget g x y) :
    TracksOn m settled K false budget g x y :=
  fun code => (hx code).lax

theorem anyhow {x : Numbering α} {y : Numbering β}
    (hx : TracksOn m settled Whatever strict budget g x y) :
    TracksOn m settled K strict budget g x y :=
  fun code => (hx code).anyhow

theorem pure {a : α} {b : β} (same : b = g a) :
    TracksOn m settled K false budget g (Pure.pure a) (Pure.pure b) :=
  fun code => Tracks.pure (by rw [same]; rfl)

theorem lift {x : Parse α} {y : Parse β} (hx : Tracks m settled K strict budget g x y) :
    TracksOn m settled K strict budget g (liftM x) (liftM y) := by
  intro code
  have both : Tracks m settled K (strict || false) budget (Prod.map g id)
      (x >>= fun a => Pure.pure (a, code)) (y >>= fun b => Pure.pure (b, code)) :=
    hx.seq (fun a => .pure rfl) (Nat.le_add_right _ _)
  rwa [Bool.or_false] at both

theorem bind {x : Numbering γ} {y : Numbering δ} {f : γ → Numbering α} {f' : δ → Numbering β}
    (hx : TracksOn m settled K strict' budget h x y)
    (hf : ∀ a, TracksOn m settled Whatever strict budget g (f a) (f' (h a))) :
    TracksOn m settled K strict budget g (x >>= f) (y >>= f') := by
  intro code
  change Tracks m settled K strict budget (Prod.map g id) (x code >>= fun r => f r.1 r.2)
    (y code >>= fun r => f' r.1 r.2)
  exact .bind (hx code) fun r => hf r.1 r.2

theorem pass {x : Numbering γ} {y : Numbering δ} {f : γ → Numbering α} {f' : δ → Numbering β}
    (hx : TracksOn m settled K true budget h x y)
    (hf : ∀ a, TracksOn m settled Whatever false (budget - 20) g (f a) (f' (h a))) :
    TracksOn m settled K strict budget g (x >>= f) (y >>= f') := by
  intro code
  change Tracks m settled K strict budget (Prod.map g id) (x code >>= fun r => f r.1 r.2)
    (y code >>= fun r => f' r.1 r.2)
  exact .pass (hx code) fun r => hf r.1 r.2

/-- It is enough to look at a lifted parser without numbers. -/
theorem lifted {x : Parse γ} {y : Parse δ} {f : γ → Numbering α} {f' : δ → Numbering β}
    (hx : ∀ code, Tracks m settled K strict budget (Prod.map g id) (x >>= fun a => f a code)
      (y >>= fun b => f' b code)) :
    TracksOn m settled K strict budget g (liftM x >>= f) (liftM y >>= f') := by
  intro code
  change Tracks m settled K strict budget (Prod.map g id)
    ((x >>= fun a => Pure.pure (a, code)) >>= fun r => f r.1 r.2)
    ((y >>= fun b => Pure.pure (b, code)) >>= fun r => f' r.1 r.2)
  simp only [bind_assoc, pure_bind]
  exact hx code

theorem isAt {mark : Mark} {f : Bool → Numbering α} {f' : Bool → Numbering β}
    (hf : ∀ b, TracksOn m settled K strict budget g (f b) (f' b)) :
    TracksOn m settled K strict budget g (liftM (isAt mark) >>= f) (liftM (isAt mark) >>= f') :=
  lifted fun code => .isAt fun b => hf b code

theorem peek {f : Kind → Numbering α} {f' : Kind → Numbering β}
    (hf : ∀ k, K k → TracksOn m settled (· = k) strict budget g (f k) (f' k)) :
    TracksOn m settled K strict budget g (liftM peek >>= f) (liftM peek >>= f') :=
  lifted fun code => .peek fun k hk => hf k hk code

theorem here {f : Position → Numbering α} {f' : Position → Numbering β}
    (hf : ∀ p, TracksOn m settled K strict budget g (f p) (f' (m.position p))) :
    TracksOn m settled K strict budget g (liftM here >>= f) (liftM here >>= f') :=
  lifted fun code => .here fun p => hf p code

theorem lastLine {f : Nat → Numbering α} {f' : Nat → Numbering β} (known : settled)
    (hf : ∀ l, TracksOn m settled K strict budget g (f l) (f' (m.line l))) :
    TracksOn m settled K strict budget g (liftM lastLine >>= f) (liftM lastLine >>= f') :=
  lifted fun code => .lastLine known fun l => hf l code

theorem fresh {f : CodeId → Numbering α} {f' : CodeId → Numbering β}
    (hf : ∀ code, TracksOn m settled K strict budget g (f code) (f' code)) :
    TracksOn m settled K strict budget g (freshCode >>= f) (freshCode >>= f') :=
  fun code => hf code (code + 1)

theorem accept {mark : Mark} [mark.Passable] {x x' : Numbering α} {y y' : Numbering β}
    (yes : TracksOn m settled Whatever false (budget - 20) g x y)
    (no : TracksOn m settled K strict budget g x' y') :
    TracksOn m settled K strict budget g (do if ← accept mark then x else x')
      (do if ← accept mark then y else y') := by
  have apply {ε : Type} (z z' : Numbering ε) (b : Bool) (code : CodeId) :
      (if b = true then z else z') code = if b = true then z code else z' code := by
    cases b <;> rfl
  refine lifted fun code => ?_
  simp only [apply]
  exact .accept (yes code) (no code)

theorem settling {f : String → Numbering α} {f' : String → Numbering β}
    (hf : ∀ name, TracksOn m True Whatever false (budget - 20) g (f name) (f' name)) :
    TracksOn m settled K strict budget g (liftM identifier >>= f) (liftM identifier >>= f') :=
  lifted fun code => .settling fun name => hf name code

end TracksOn

structure AllTrackOn (m : Relocation) (n : Nat) : Prop where
  statement {settled : Prop} {budget : Nat} (h : budget ≤ n - 13) :
    TrackedOn m settled true budget (Stmt.movedAll m) (statement n)
  block {settled : Prop} {budget : Nat} (place : Place) (h : budget ≤ n) :
    TrackedOn m settled true budget (Stmt.movedAll m) (block n place)
  statements {settled : Prop} {budget : Nat} (h : budget ≤ n - 14) :
    TrackedOn m settled false budget (Stmt.movedAll m) (statements n)
  elseBlock {settled : Prop} {budget : Nat} (h : budget ≤ n) :
    TrackedOn m settled false budget (Stmt.movedAll m) (elseBlock n)
  ifStatement {settled : Prop} {budget : Nat} (p : Position) (h : budget ≤ n - 12) :
    TracksOn m settled Whatever true budget (Stmt.moved m) (ifStatement n p)
      (ifStatement n (m.position p))
  handlers {settled : Prop} {budget : Nat} (h : budget ≤ n) :
    TrackedOn m settled false budget (Handler.movedAll m) (handlers n)
  tryStatement {settled : Prop} {budget : Nat} (p : Position) (h : budget ≤ n - 1) :
    TracksOn m settled Whatever true budget (Stmt.moved m) (tryStatement n p)
      (tryStatement n (m.position p))
  definition {settled : Prop} {budget : Nat} (h : budget ≤ n - 1) :
    TrackedOn m settled true budget (Stmt.moved m) (definition n)
  functionDefinition {settled : Prop} {budget : Nat} (isAsync : Bool) (ds : List Expr)
    (p : Position) (h : budget ≤ n) :
    TracksOn m settled Whatever true budget (Stmt.moved m) (functionDefinition n isAsync ds p)
      (functionDefinition n isAsync (Expr.movedAll m ds) (m.position p))
  classDefinition {settled : Prop} {budget : Nat} (ds : List Expr) (p : Position)
    (h : budget ≤ n) :
    TracksOn m settled Whatever true budget (Stmt.moved m) (classDefinition n ds p)
      (classDefinition n (Expr.movedAll m ds) (m.position p))

namespace AllTrackOn

variable (ih : AllTrackOn m n)

include ih

theorem next_block (place : Place) (h : budget ≤ n + 1) :
    TrackedOn m settled true budget (Stmt.movedAll m) (Parser.block (n + 1) place) := by
  unfold Parser.block
  have line : TrackedOn m settled true (budget - 20) (Stmt.movedAll m) (simpleStatements n) :=
    .lift (tracked_simpleStatements (by omega))
  refine .pass (.lift .expect) fun _ => .accept ?_ line.lax
  refine .bind (.lift .expect) fun _ => .bind (ih.statements (by omega)) fun body => ?_
  exact .bind (.lift .expect) fun _ => .pure rfl

theorem next_statements (h : budget ≤ n + 1 - 14) :
    TrackedOn m settled false budget (Stmt.movedAll m) (Parser.statements (n + 1)) := by
  unfold Parser.statements
  refine .isAt fun atDedent => .isAt fun atEnd => ?_
  split
  · exact .pure rfl
  · refine .pass (ih.statement (by omega)) fun first => ?_
    exact .bind (ih.statements (by omega)) fun others => .pure (by simp)

theorem next_elseBlock (h : budget ≤ n + 1) :
    TrackedOn m settled false budget (Stmt.movedAll m) (Parser.elseBlock (n + 1)) := by
  unfold Parser.elseBlock
  exact .accept (.lax (ih.block _ (by omega))) (.pure rfl)

theorem next_ifStatement (p : Position) (h : budget ≤ n + 1 - 12) :
    TracksOn m settled Whatever true budget (Stmt.moved m) (Parser.ifStatement (n + 1) p)
      (Parser.ifStatement (n + 1) (m.position p)) := by
  unfold Parser.ifStatement
  refine .pass (.lift ((allTrack m n).test (by omega))) fun test => ?_
  refine .bind (ih.block _ (by omega)) fun body => .here fun q => .accept ?_ ?_
  · exact .bind (ih.ifStatement q (by omega)) fun inner => .pure rfl
  · exact .bind (ih.elseBlock (by omega)) fun orelse => .pure rfl

theorem next_handlers (h : budget ≤ n + 1) :
    TrackedOn m settled false budget (Handler.movedAll m) (Parser.handlers (n + 1)) := by
  unfold Parser.handlers
  refine .here fun p => .accept ?_ (.pure rfl)
  refine .bind (.lift (tracked_caught (by omega))) fun r => ?_
  refine .bind (ih.block _ (by omega)) fun body => ?_
  exact .bind (ih.handlers (by omega)) fun hs => .pure rfl

theorem next_tryStatement (p : Position) (h : budget ≤ n + 1 - 1) :
    TracksOn m settled Whatever true budget (Stmt.moved m) (Parser.tryStatement (n + 1) p)
      (Parser.tryStatement (n + 1) (m.position p)) := by
  unfold Parser.tryStatement
  refine .pass (ih.block _ (by omega)) fun body => ?_
  refine .bind (ih.handlers (by omega)) fun clauses => ?_
  have empty : (Handler.movedAll m clauses).isEmpty = clauses.isEmpty := by
    cases clauses <;> rfl
  rw [empty]
  have ending {budget : Nat} (orelse final : List Stmt) :
      TracksOn m settled Whatever false budget (Stmt.moved m)
        (if (clauses.isEmpty && final.isEmpty) = true then liftM (failHere .missingHandler)
          else pure (.tryBlock body clauses orelse final p))
        (if (clauses.isEmpty && (Stmt.movedAll m final).isEmpty) = true then
            liftM (failHere .missingHandler)
          else pure (.tryBlock (Stmt.movedAll m body) (Handler.movedAll m clauses)
            (Stmt.movedAll m orelse) (Stmt.movedAll m final) (m.position p))) := by
    have empty : (Stmt.movedAll m final).isEmpty = final.isEmpty := by
      cases final <;> rfl
    rw [empty]
    split
    · exact .lift (.failHere nofun)
    · exact .pure rfl
  dsimp only
  split
  · refine .accept ?_ (ending [] [])
    exact .bind (ih.block _ (by omega)) fun final => ending [] final
  · refine .bind (ih.elseBlock (by omega)) fun orelse => .accept ?_ (ending orelse [])
    exact .bind (ih.block _ (by omega)) fun final => ending orelse final

theorem next_definition (h : budget ≤ n + 1 - 1) :
    TrackedOn m settled true budget (Stmt.moved m) (Parser.definition (n + 1)) := by
  unfold Parser.definition
  refine .bind (.lift (tracked_decorators (by omega))) fun ds => .here fun p => .peek fun k _ => ?_
  split
  · refine .pass (.lift (.advance nofun)) fun _ => ?_
    exact (ih.functionDefinition false ds p (by omega)).lax
  · refine .pass (.lift (.advance nofun)) fun _ => .bind (.lift .expect) fun _ => ?_
    exact (ih.functionDefinition true ds p (by omega)).lax
  · refine .pass (.lift (.advance nofun)) fun _ => ?_
    exact (ih.classDefinition ds p (by omega)).lax
  · exact .lift (.failFound fun _ => nofun)

theorem next_functionDefinition (isAsync : Bool) (ds : List Expr) (p : Position)
    (h : budget ≤ n + 1) :
    TracksOn m settled Whatever true budget (Stmt.moved m)
      (Parser.functionDefinition (n + 1) isAsync ds p)
      (Parser.functionDefinition (n + 1) isAsync (Expr.movedAll m ds) (m.position p)) := by
  unfold Parser.functionDefinition
  refine .settling fun name => .fresh fun code => .bind (.lift .expect) fun _ => ?_
  refine .bind (.lift (tracks_parameters [] (by omega))) fun params => ?_
  refine .bind (.lift .expect) fun _ => ?_
  refine .bind (.lift (.following ((allTrack m n).test (by omega)))) fun returns => ?_
  refine .bind (ih.block _ (by omega)) fun body => .lastLine trivial fun endLine => ?_
  rw [Bound.ofFunction_moved]
  exact .pure rfl

theorem next_classDefinition (ds : List Expr) (p : Position) (h : budget ≤ n + 1) :
    TracksOn m settled Whatever true budget (Stmt.moved m) (Parser.classDefinition (n + 1) ds p)
      (Parser.classDefinition (n + 1) (Expr.movedAll m ds) (m.position p)) := by
  unfold Parser.classDefinition
  refine .settling fun name => .fresh fun code => ?_
  refine .bind (.lift (tracked_baseClasses (by omega))) fun bases => ?_
  refine .bind (ih.block _ (by omega)) fun body => .lastLine trivial fun endLine => ?_
  exact .pure rfl

theorem next_statement (h : budget ≤ n + 1 - 13) :
    TrackedOn m settled true budget (Stmt.movedAll m) (Parser.statement (n + 1)) := by
  have all := allTrack m n
  unfold Parser.statement
  refine .here fun p => .peek fun k _ => ?_
  split
  case h_1 | h_2 | h_3 | h_4 =>
    exact .anyhow (.pass (ih.definition (by omega)) fun s => .pure rfl)
  case h_5 =>
    refine .pass (.lift (.advance nofun)) fun _ => ?_
    exact .bind (ih.ifStatement p (by omega)) fun s => .pure rfl
  case h_6 =>
    refine .pass (.lift (.advance nofun)) fun _ => ?_
    refine .bind (.lift (all.test (by omega))) fun test => ?_
    refine .bind (ih.block _ (by omega)) fun body => ?_
    exact .bind (ih.elseBlock (by omega)) fun orelse => .pure rfl
  case h_7 =>
    refine .pass (.lift (.advance nofun)) fun _ => ?_
    refine .bind (.lift (tracked_targetList (by omega))) fun target => ?_
    refine .bind (.lift (tracks_checkTargets (by nofun) [target])) fun _ => ?_
    refine .bind (.lift .expect) fun _ => .bind (.lift (all.testList (by omega))) fun iter => ?_
    refine .bind (ih.block _ (by omega)) fun body => ?_
    exact .bind (ih.elseBlock (by omega)) fun orelse => .pure rfl
  case h_8 =>
    refine .pass (.lift (.advance nofun)) fun _ => ?_
    exact .bind (ih.tryStatement p (by omega)) fun s => .pure rfl
  case h_9 =>
    refine .pass (.lift (.advance nofun)) fun _ => ?_
    refine .bind (.lift (tracked_withItems (by omega))) fun items => ?_
    exact .bind (ih.block _ (by omega)) fun body => .pure rfl
  case h_10 | h_11 => exact .lift (.failHere nofun)
  case h_12 => exact .anyhow (.lift (tracked_simpleStatements (by omega)))

end AllTrackOn

theorem allTrackOn (m : Relocation) (n : Nat) : AllTrackOn m n := by
  induction n with
  | zero => constructor <;> intros <;> exact .lift (tracks_tooDeep (by omega))
  | succ n ih =>
    exact ⟨ih.next_statement, ih.next_block, ih.next_statements, ih.next_elseBlock,
      ih.next_ifStatement, ih.next_handlers, ih.next_tryStatement, ih.next_definition,
      ih.next_functionDefinition, ih.next_classDefinition⟩

theorem tracked_program (h : budget ≤ n - 14) :
    TrackedOn m settled false budget (Stmt.movedAll m) (program n) := by
  induction n generalizing budget with
  | zero => exact .lift (tracks_tooDeep (by omega))
  | succ n ih =>
    unfold program
    refine .isAt fun atEnd => ?_
    split
    · exact .pure rfl
    · refine .pass ((allTrackOn m n).statement (by omega)) fun first => ?_
      exact .bind (ih (by omega)) fun others => .pure (by simp)

end Footprint.Parser
