import Footprint.Proofs.Tracking

set_option autoImplicit false

/-!
The parsers of expressions on tokens that have been moved. How deep calls are nested between two
tokens is said by what each parser needs of the depth besides the budget.
-/

namespace Footprint.Parser

open Token

variable {m : Relocation} {settled : Prop} {n budget : Nat}

/-- A parser on moved tokens does what it does on the tokens. -/
abbrev Tracked {α : Type} (m : Relocation) (settled : Prop) (strict : Bool) (budget : Nat)
    (g : α → α) (x : Parse α) : Prop := Tracks m settled Whatever strict budget g x x

theorem tracks_tooDeep {α β : Type} {strict : Bool} {g : α → β} {K : Kind → Prop}
    (h : budget ≤ 0) :
    Tracks m settled K strict budget g (failHere .nestingTooDeep) (failHere .nestingTooDeep) :=
  Tracks.tooDeep.within h

theorem tracked_adjacentStrings (h : budget ≤ n) :
    Tracked m settled false budget id (adjacentStrings n) := by
  induction n generalizing budget with
  | zero => exact tracks_tooDeep h
  | succ n ih =>
    unfold adjacentStrings
    refine .peek fun k _ => ?_
    split
    · exact .pass (.advance nofun) fun _ => .bind (ih (by omega)) fun s => .pure rfl
    · exact .pure rfl

/-- If a string is ahead, it is passed. -/
theorem tracks_adjacentStrings (s : String) (h : budget ≤ n) :
    Tracks m settled (· = .str s) true budget id (adjacentStrings n) (adjacentStrings n) := by
  cases n with
  | zero => exact tracks_tooDeep h
  | succ n =>
    unfold adjacentStrings
    refine .peek fun k hk => ?_
    subst hk
    refine .pass (.advance (by simp)) fun _ => ?_
    exact .bind (tracked_adjacentStrings (by omega)) fun s => .pure rfl

structure AllTrack (m : Relocation) (n : Nat) : Prop where
  testList {settled : Prop} {budget : Nat} (h : budget ≤ n - 12) :
    Tracked m settled true budget (Expr.moved m) (testList n)
  moreTests {settled : Prop} {budget : Nat} (h : budget ≤ n) :
    Tracked m settled false budget (Expr.movedAll m) (moreTests n)
  test {settled : Prop} {budget : Nat} (h : budget ≤ n - 11) :
    Tracked m settled true budget (Expr.moved m) (test n)
  orTest {settled : Prop} {budget : Nat} (h : budget ≤ n - 10) :
    Tracked m settled true budget (Expr.moved m) (orTest n)
  moreOr {settled : Prop} {budget : Nat} (h : budget ≤ n) :
    Tracked m settled false budget (Expr.movedAll m) (moreOr n)
  andTest {settled : Prop} {budget : Nat} (h : budget ≤ n - 9) :
    Tracked m settled true budget (Expr.moved m) (andTest n)
  moreAnd {settled : Prop} {budget : Nat} (h : budget ≤ n) :
    Tracked m settled false budget (Expr.movedAll m) (moreAnd n)
  notTest {settled : Prop} {budget : Nat} (h : budget ≤ n - 8) :
    Tracked m settled true budget (Expr.moved m) (notTest n)
  comparison {settled : Prop} {budget : Nat} (h : budget ≤ n - 7) :
    Tracked m settled true budget (Expr.moved m) (comparison n)
  moreLinks {settled : Prop} {budget : Nat} (h : budget ≤ n) :
    Tracked m settled false budget (Expr.movedLinks m) (moreLinks n)
  arith {settled : Prop} {budget : Nat} (h : budget ≤ n - 6) :
    Tracked m settled true budget (Expr.moved m) (arith n)
  moreTerms {settled : Prop} {budget : Nat} (left : Expr) (h : budget ≤ n) :
    Tracks m settled Whatever false budget (Expr.moved m) (moreTerms n left)
      (moreTerms n (left.moved m))
  term {settled : Prop} {budget : Nat} (h : budget ≤ n - 5) :
    Tracked m settled true budget (Expr.moved m) (term n)
  moreFactors {settled : Prop} {budget : Nat} (left : Expr) (h : budget ≤ n) :
    Tracks m settled Whatever false budget (Expr.moved m) (moreFactors n left)
      (moreFactors n (left.moved m))
  factor {settled : Prop} {budget : Nat} (h : budget ≤ n - 4) :
    Tracked m settled true budget (Expr.moved m) (factor n)
  power {settled : Prop} {budget : Nat} (h : budget ≤ n - 3) :
    Tracked m settled true budget (Expr.moved m) (power n)
  primary {settled : Prop} {budget : Nat} (h : budget ≤ n - 2) :
    Tracked m settled true budget (Expr.moved m) (primary n)
  trailers {settled : Prop} {budget : Nat} (e : Expr) (h : budget ≤ n) :
    Tracks m settled Whatever false budget (Expr.moved m) (trailers n e) (trailers n (e.moved m))
  arguments {settled : Prop} {budget : Nat} (h : budget ≤ n - 12) :
    Tracked m settled false budget (Expr.movedAll m) (arguments n)
  testsUntil {settled : Prop} {budget : Nat} (close : Symbol) (h : budget ≤ n - 12) :
    Tracked m settled false budget (Expr.movedAll m) (testsUntil close n)
  atom {settled : Prop} {budget : Nat} (h : budget ≤ n - 1) :
    Tracked m settled true budget (Expr.moved m) (atom n)

namespace AllTrack

variable (ih : AllTrack m n)

include ih

theorem next_testList (h : budget ≤ n + 1 - 12) :
    Tracked m settled true budget (Expr.moved m) (Parser.testList (n + 1)) := by
  unfold Parser.testList
  refine .pass (ih.test (by omega)) fun first => .isAt fun comma => ?_
  rw [Expr.pos_moved]
  split
  · exact .bind (ih.moreTests (by omega)) fun others => .pure rfl
  · exact .pure rfl

theorem next_moreTests (h : budget ≤ n + 1) :
    Tracked m settled false budget (Expr.movedAll m) (Parser.moreTests (n + 1)) := by
  unfold Parser.moreTests
  refine .accept (.isAtExpression fun isTest => ?_) (.pure rfl)
  split
  · refine .bind (ih.test (by omega)) fun e => ?_
    exact .bind (ih.moreTests (by omega)) fun es => .pure rfl
  · exact .pure rfl

theorem next_test (h : budget ≤ n + 1 - 11) :
    Tracked m settled true budget (Expr.moved m) (Parser.test (n + 1)) := by
  unfold Parser.test
  refine .pass (ih.orTest (by omega)) fun body => .accept ?_ (.pure rfl)
  refine .bind (ih.orTest (by omega)) fun condition => .bind (.expect) fun _ => ?_
  refine .bind (ih.test (by omega)) fun orelse => .pure ?_
  rw [Expr.pos_moved]
  rfl

theorem next_orTest (h : budget ≤ n + 1 - 10) :
    Tracked m settled true budget (Expr.moved m) (Parser.orTest (n + 1)) := by
  unfold Parser.orTest
  refine .pass (ih.andTest (by omega)) fun first => .bind (ih.moreOr (by omega)) fun others => ?_
  rw [Expr.pos_moved]
  cases others with
  | nil => exact .pure rfl
  | cons e es => exact .pure rfl

theorem next_moreOr (h : budget ≤ n + 1) :
    Tracked m settled false budget (Expr.movedAll m) (Parser.moreOr (n + 1)) := by
  unfold Parser.moreOr
  exact .separated (ih.andTest (by omega)) (ih.moreOr (by omega)) (fun _ _ => rfl) rfl

theorem next_andTest (h : budget ≤ n + 1 - 9) :
    Tracked m settled true budget (Expr.moved m) (Parser.andTest (n + 1)) := by
  unfold Parser.andTest
  refine .pass (ih.notTest (by omega)) fun first => .bind (ih.moreAnd (by omega)) fun others => ?_
  rw [Expr.pos_moved]
  cases others with
  | nil => exact .pure rfl
  | cons e es => exact .pure rfl

theorem next_moreAnd (h : budget ≤ n + 1) :
    Tracked m settled false budget (Expr.movedAll m) (Parser.moreAnd (n + 1)) := by
  unfold Parser.moreAnd
  exact .separated (ih.notTest (by omega)) (ih.moreAnd (by omega)) (fun _ _ => rfl) rfl

theorem next_notTest (h : budget ≤ n + 1 - 8) :
    Tracked m settled true budget (Expr.moved m) (Parser.notTest (n + 1)) := by
  unfold Parser.notTest
  refine .here fun p => .accept ?_ (ih.comparison (by omega))
  exact .bind (ih.notTest (by omega)) fun e => .pure rfl

theorem next_comparison (h : budget ≤ n + 1 - 7) :
    Tracked m settled true budget (Expr.moved m) (Parser.comparison (n + 1)) := by
  unfold Parser.comparison
  refine .pass (ih.arith (by omega)) fun left => .bind (ih.moreLinks (by omega)) fun links => ?_
  rw [Expr.pos_moved]
  cases links with
  | nil => exact .pure rfl
  | cons link links => exact .pure rfl

theorem next_moreLinks (h : budget ≤ n + 1) :
    Tracked m settled false budget (Expr.movedLinks m) (Parser.moreLinks (n + 1)) := by
  unfold Parser.moreLinks
  refine .compareOp? (fun op => ?_) (.pure rfl)
  exact .bind (ih.arith (by omega)) fun e => .bind (ih.moreLinks (by omega)) fun links => .pure rfl

theorem next_arith (h : budget ≤ n + 1 - 6) :
    Tracked m settled true budget (Expr.moved m) (Parser.arith (n + 1)) := by
  unfold Parser.arith
  exact .pass (ih.term (by omega)) fun left => ih.moreTerms left (by omega)

theorem next_moreTerms (left : Expr) (h : budget ≤ n + 1) :
    Tracks m settled Whatever false budget (Expr.moved m) (Parser.moreTerms (n + 1) left)
      (Parser.moreTerms (n + 1) (left.moved m)) := by
  unfold Parser.moreTerms
  refine .peek fun k _ => ?_
  rw [Expr.pos_moved]
  split
  · next op found =>
    have other : k ≠ .mark .endOfFile := by
      rintro rfl
      cases found
    refine .pass (.advance other) fun _ => .bind (ih.term (by omega)) fun right => ?_
    exact ih.moreTerms (.binary op left right left.pos) (by omega)
  · exact .pure rfl

theorem next_term (h : budget ≤ n + 1 - 5) :
    Tracked m settled true budget (Expr.moved m) (Parser.term (n + 1)) := by
  unfold Parser.term
  exact .pass (ih.factor (by omega)) fun left => ih.moreFactors left (by omega)

theorem next_moreFactors (left : Expr) (h : budget ≤ n + 1) :
    Tracks m settled Whatever false budget (Expr.moved m) (Parser.moreFactors (n + 1) left)
      (Parser.moreFactors (n + 1) (left.moved m)) := by
  unfold Parser.moreFactors
  refine .peek fun k _ => ?_
  rw [Expr.pos_moved]
  split
  · next op found =>
    have other : k ≠ .mark .endOfFile := by
      rintro rfl
      cases found
    refine .pass (.advance other) fun _ => .bind (ih.factor (by omega)) fun right => ?_
    exact ih.moreFactors (.binary op left right left.pos) (by omega)
  · exact .pure rfl

theorem next_factor (h : budget ≤ n + 1 - 4) :
    Tracked m settled true budget (Expr.moved m) (Parser.factor (n + 1)) := by
  unfold Parser.factor
  refine .here fun p => .peek fun k _ => ?_
  split
  · next op found =>
    have other : k ≠ .mark .endOfFile := by
      rintro rfl
      cases found
    exact .pass (.advance other) fun _ => .bind (ih.factor (by omega)) fun e => .pure rfl
  · exact (ih.power (by omega)).anyhow

theorem next_power (h : budget ≤ n + 1 - 3) :
    Tracked m settled true budget (Expr.moved m) (Parser.power (n + 1)) := by
  unfold Parser.power
  refine .pass (ih.primary (by omega)) fun base => .accept ?_ (.pure rfl)
  rw [Expr.pos_moved]
  exact .bind (ih.factor (by omega)) fun e => .pure rfl

theorem next_primary (h : budget ≤ n + 1 - 2) :
    Tracked m settled true budget (Expr.moved m) (Parser.primary (n + 1)) := by
  unfold Parser.primary
  exact .pass (ih.atom (by omega)) fun e => ih.trailers e (by omega)

theorem next_trailers (e : Expr) (h : budget ≤ n + 1) :
    Tracks m settled Whatever false budget (Expr.moved m) (Parser.trailers (n + 1) e)
      (Parser.trailers (n + 1) (e.moved m)) := by
  unfold Parser.trailers
  rw [Expr.pos_moved]
  refine .accept ?_ (.accept ?_ (.accept ?_ (.pure rfl)))
  · refine .bind (ih.arguments (by omega)) fun args => .bind .expect fun _ => ?_
    exact ih.trailers (.call e args e.pos) (by omega)
  · refine .bind (ih.testList (by omega)) fun index => .bind .expect fun _ => ?_
    exact ih.trailers (.subscript e index e.pos) (by omega)
  · exact .bind .identifier fun attr => ih.trailers (.member e attr e.pos) (by omega)

theorem next_arguments (h : budget ≤ n + 1 - 12) :
    Tracked m settled false budget (Expr.movedAll m) (Parser.arguments (n + 1)) := by
  unfold Parser.arguments
  refine .isAt fun ended => ?_
  split
  · exact .pure rfl
  · refine .isAtKeywordArgument fun keyword => ?_
    split
    · exact .failHere (by simp)
    · refine .pass (ih.test (by omega)) fun e => .accept ?_ (.pure rfl)
      exact .bind (ih.arguments (by omega)) fun es => .pure rfl

theorem next_testsUntil (close : Symbol) (h : budget ≤ n + 1 - 12) :
    Tracked m settled false budget (Expr.movedAll m) (Parser.testsUntil close (n + 1)) := by
  unfold Parser.testsUntil
  refine .isAt fun ended => ?_
  split
  · exact .pure rfl
  · refine .pass (ih.test (by omega)) fun e => .accept ?_ (.pure rfl)
    exact .bind (ih.testsUntil close (by omega)) fun es => .pure rfl

theorem next_atom (h : budget ≤ n + 1 - 1) :
    Tracked m settled true budget (Expr.moved m) (Parser.atom (n + 1)) := by
  unfold Parser.atom
  refine .here fun p => .peek fun k _ => ?_
  split
  case h_1 | h_2 | h_3 | h_4 | h_5 | h_6 => exact .pass (.advance nofun) fun _ => .pure rfl
  case h_7 => exact .pass (tracks_adjacentStrings _ (by omega)) fun text => .pure rfl
  case h_8 =>
    refine .pass (.advance nofun) fun _ => .accept (.pure rfl) ?_
    refine .bind (ih.test (by omega)) fun first => .accept ?_ ?_
    · refine .bind (ih.testsUntil .closeParen (by omega)) fun others => ?_
      exact .bind .expect fun _ => .pure rfl
    · exact .bind .expect fun _ => .pure rfl
  case h_9 =>
    refine .pass (.advance nofun) fun _ => ?_
    refine .bind (ih.testsUntil .closeBracket (by omega)) fun items => ?_
    exact .bind .expect fun _ => .pure rfl
  case h_10 => exact .failFound fun _ => nofun

end AllTrack

theorem allTrack (m : Relocation) (n : Nat) : AllTrack m n := by
  induction n with
  | zero => constructor <;> intros <;> exact tracks_tooDeep (by omega)
  | succ n ih =>
    exact ⟨ih.next_testList, ih.next_moreTests, ih.next_test, ih.next_orTest, ih.next_moreOr,
      ih.next_andTest, ih.next_moreAnd, ih.next_notTest, ih.next_comparison, ih.next_moreLinks,
      ih.next_arith, ih.next_moreTerms, ih.next_term, ih.next_moreFactors, ih.next_factor,
      ih.next_power, ih.next_primary, ih.next_trailers, ih.next_arguments, ih.next_testsUntil,
      ih.next_atom⟩

theorem tracked_moreTargets (h : budget ≤ n) :
    Tracked m settled false budget (Expr.movedAll m) (moreTargets n) := by
  induction n generalizing budget with
  | zero => exact tracks_tooDeep h
  | succ n ih =>
    unfold moreTargets
    refine .accept (.isAtExpression fun isTarget => ?_) (.pure rfl)
    split
    · refine .bind ((allTrack m n).arith (by omega)) fun e => ?_
      exact .bind (ih (by omega)) fun es => .pure rfl
    · exact .pure rfl

theorem tracked_targetList (h : budget ≤ n - 6) :
    Tracked m settled true budget (Expr.moved m) (targetList n) := by
  unfold targetList
  refine .pass ((allTrack m n).arith h) fun first => .isAt fun comma => ?_
  rw [Expr.pos_moved]
  split
  · exact .bind (tracked_moreTargets (by omega)) fun others => .pure rfl
  · exact .pure rfl

end Footprint.Parser
