import Mathlib
import Footprint.Proofs.Comparison
import Footprint.Proofs.Sights

set_option autoImplicit false

/-!
Identity of values. Among all values that a host or a run meets it is symmetric and transitive, and
each value is the same object as itself, but for floats, ranges and bound methods. What is the same
object is equal too, unless a NaN or a bound method is found in it by going through tuples alone.
-/

namespace Footprint

namespace Value

/-- The value is the same object as itself. -/
def isObject : Value → Bool
  | .float _ | .range _ | .method .. => false
  | _ => true

/-- The second value is the first one, or it is in a tuple that the first one holds in this way. -/
inductive Holds : Value → Value → Prop
  | self (v : Value) : Holds v v
  | item {id : Nat} {vs : List Value} {v u : Value} : v ∈ vs → Holds v u → Holds (.tuple id vs) u

/-- The value is unequal to itself, whatever else there is. -/
def isUnlikeItself : Value → Bool
  | .float x => x.isNaN
  | .method .. => true
  | _ => false

/-- Neither the value nor what its tuples hold is unequal to itself. -/
def EqualsItself (v : Value) : Prop := ∀ u, v.Holds u → u.isUnlikeItself = false

variable {a b c v : Value} {id : Nat} {vs : List Value}

theorem equalsItself_tuple : (tuple id vs).EqualsItself ↔ ∀ v ∈ vs, v.EqualsItself := by
  constructor
  · exact fun h v hv u held => h u (.item hv held)
  · intro h u held
    cases held with
    | self => rfl
    | item hv held => exact h _ hv u held

theorem equalsItself_of_ne_tuple (other : ∀ id vs, v ≠ tuple id vs) :
    v.EqualsItself ↔ v.isUnlikeItself = false := by
  refine ⟨fun h => h v (.self v), fun h u held => ?_⟩
  cases held with
  | self => exact h
  | item => exact absurd rfl (other _ _)

theorem isSame_self (v : Value) : v.isSame v = v.isObject := by
  cases v <;> simp [isSame, isObject]

theorem isSame_symm (h : a.isSame b = true) : b.isSame a = true := by
  cases a <;> cases b <;> simp_all [isSame]

theorem isSame_trans (h : a.isSame b = true) (h' : b.isSame c = true) : a.isSame c = true := by
  cases a <;> cases b <;> cases c <;> simp_all [isSame]

end Value

namespace Store

variable {s : Store} {a b c v : Value} {w : Ledger}

/-! ### Values and themselves -/

theorem allEqual_self {equal : Value → Value → Option Bool} {P : Value → Prop} {vs : List Value}
    (h : ∀ v ∈ vs, ∃ answer, equal v v = some answer ∧ (answer = true ↔ P v)) :
    ∃ answer, allEqual equal vs vs = some answer ∧ (answer = true ↔ ∀ v ∈ vs, P v) := by
  induction vs with
  | nil => exact ⟨true, rfl, by simp⟩
  | cons v vs ih =>
    obtain ⟨first, found, iff⟩ := h v List.mem_cons_self
    obtain ⟨others, found', iff'⟩ := ih fun u hu => h u (List.mem_cons_of_mem _ hu)
    rw [allEqual_cons, found, List.forall_mem_cons, ← iff, ← iff']
    cases first with
    | true => exact ⟨others, found', by simp⟩
    | false => exact ⟨false, rfl, by simp⟩

theorem atomsEqual_self (v : Value) (list : ∀ r, v ≠ .list r) (tuple : ∀ id vs, v ≠ .tuple id vs) :
    Value.atomsEqual v v = !v.isUnlikeItself := by
  cases v with
  | list r => exact absurd rfl (list r)
  | tuple id vs => exact absurd rfl (tuple id vs)
  | float x =>
    have beq : (x == x) = !x.isNaN := by
      rw [Float.isNaN_eq_decide_eq_nan, Bool.eq_iff_iff, Float.beq_self_iff]
      simp
    simpa [Value.atomsEqual, Value.numbersEqual, Value.isNumber, Value.asFloat?,
      Value.isUnlikeItself] using beq
  | _ => simp [Value.atomsEqual, Value.numbersEqual, Value.isNumber, Value.asInt?, Value.isSame,
      Value.isUnlikeItself]

/-- Whether a value equals itself always comes out, as it does not take opening any list. -/
theorem equalWithin_self (s : Store) (d : Nat) (v : Value) :
    ∃ answer, s.equalWithin d v v = some answer ∧ (answer = true ↔ v.EqualsItself) := by
  induction d, v using Opens.induct s with
  | step d v ih =>
    by_cases list : ∃ r, v = .list r
    · obtain ⟨r, rfl⟩ := list
      exact ⟨true, equalWithin_list_self d r,
        iff_of_true rfl ((Value.equalsItself_of_ne_tuple (v := .list r) nofun).2 rfl)⟩
    by_cases tuple : ∃ id vs, v = .tuple id vs
    · obtain ⟨id, vs, rfl⟩ := tuple
      rw [equalWithin_tuples, if_pos rfl, Value.equalsItself_tuple]
      exact allEqual_self fun v hv => ih d vs (.tuple d id vs) v hv
    have list (r : ListRef) : v ≠ .list r := fun same => list ⟨r, same⟩
    have tuple (id : Nat) (vs : List Value) : v ≠ .tuple id vs := fun same => tuple ⟨id, vs, same⟩
    have apart : Value.Apart v v :=
      ⟨fun r _ both => list r both.1, fun id vs _ _ both => tuple id vs both.1⟩
    refine ⟨_, equalWithin_apart apart d, ?_⟩
    rw [atomsEqual_self v list tuple, Value.equalsItself_of_ne_tuple tuple, Bool.not_eq_true']

/-- An object is compared in the same way whichever of the values that name it is compared. -/
theorem equal?_of_isSame (ha : w.Good a) (hb : w.Good b) (same : a.isSame b = true) :
    s.equal? a b = s.equal? a a := by
  cases a <;> cases b <;> simp only [Value.isSame, beq_iff_eq, Bool.false_eq_true] at same
  case tuple.tuple id vs _ us =>
    subst same
    rw [ha.items_eq hb]
  all_goals
    first
      | rfl
      | (subst same; rfl)

/-! ### Laws -/

/-- How identity goes among three values, and equality with it. -/
structure Identifies (s : Store) (a b c : Value) : Prop where
  refl : s.Affirms .same a a ↔ a.isObject = true
  symm : s.Affirms .same a b → s.Affirms .same b a
  trans : s.Affirms .same a b → s.Affirms .same b c → s.Affirms .same a c
  equal : s.Affirms .same a b →
    s.Answers .eq a b ∧ (s.Affirms .eq a b ↔ a.EqualsItself)

theorem affirms_same_iff : s.Affirms .same a b ↔ a.isSame b = true := by
  have run : s.verdict .same a b = some (.ok (a.isSame b)) := rfl
  rw [Affirms, run]
  simp

theorem identifies (ha : w.Good a) (hb : w.Good b) : s.Identifies a b c where
  refl := by rw [affirms_same_iff, Value.isSame_self]
  symm := by simpa only [affirms_same_iff] using Value.isSame_symm
  trans := by simpa only [affirms_same_iff] using Value.isSame_trans
  equal same := by
    obtain ⟨answer, found, iff⟩ := s.equalWithin_self s.pairDepth a
    have found : s.equal? a b = some answer :=
      (equal?_of_isSame ha hb (affirms_same_iff.1 same)).trans found
    have verdict : s.verdict .eq a b = some (.ok answer) := by
      rw [verdict_eq, found]
      rfl
    refine ⟨⟨answer, verdict⟩, ?_⟩
    rw [← iff, Affirms, verdict]
    simp

end Store

/-- Identity of the values that are met goes as it should, and equality with it. -/
def MeetsIdentities (store : Store) (given : List Value) (sights : List Sight) : Prop :=
  ∀ a b c, Met store given sights a → Met store given sights b → Met store given sights c →
    ∀ s : Store, s.Identifies a b c

namespace Interpreter

variable {ω : Type} {p : Program} {limits : Limits} {i : Interpreter ω} {given : List Value}
  {film : List Scene}

/-- Whatever a host has done with a program, among all values that are there or that the next run or
call meets identity is symmetric and transitive, it holds of a value and itself unless that is a
float, a range or a bound method, and the same object is compared as equal unless its tuples hold a
NaN or a bound method. -/
theorem identity_coherent (h : Filmed p limits i given film) (n : Nat) (μ : Monitors ω) :
    ((i.sightRun n μ).plain =
        i.setting.runScript n i.program.script (i.machine.withMonitor μ) ∧
      MeetsIdentities i.machine.store given (i.sightRun n μ).machine.monitor.notes) ∧
    ∀ (name : String) (args : List Gift), (∀ gift ∈ args, gift.IsFrom i.machine.store given) →
      (i.sightCall n μ name (Gift.makeAll args)).plain =
          (do let vs ← Action.edit (Gift.makeAll args); i.setting.callGlobal n name vs)
            (i.machine.withMonitor μ) ∧
        MeetsIdentities i.machine.store given
          (i.sightCall n μ name (Gift.makeAll args)).machine.monitor.notes := by
  obtain ⟨w, rests⟩ := Ledger.exists_rests h
  have laws {notes : List Sight} :
      (∃ w : Ledger, ∀ v, Met i.machine.store given notes v → w.Good v) →
        MeetsIdentities i.machine.store given notes := by
    rintro ⟨w, good⟩ a b c ha hb - s
    exact Store.identifies (good a ha) (good b hb)
  constructor
  · exact ⟨i.sightRun_plain n μ, laws (rests.met (rests.sightRun n μ))⟩
  · intro name args offered
    exact ⟨i.sightCall_plain n μ name _, laws (rests.met (rests.sightCall n μ name offered))⟩

/-- A script gives a tuple to a second variable. -/
theorem identity_coherent_shared :
    let pair : Expr := .tuple [.list [] ⟨1, 6⟩, .const (.int 1) ⟨1, 10⟩] ⟨1, 5⟩
    let p : Program := ⟨"t = ([], 1)\nu = t\n",
      ⟨[.assign [.name "t" ⟨1, 1⟩] pair ⟨1, 1⟩,
        .assign [.name "u" ⟨2, 1⟩] (.name "t" ⟨2, 5⟩) ⟨2, 1⟩]⟩⟩
    let i : Interpreter Unit := .new p .default .steady
    let v : Value := .tuple 0 [.list ⟨0⟩, .int 1]
    Program.ofSource p.source = .ok p ∧ v.isObject = true ∧ v.EqualsItself ∧
    ∃ r j ν, i.run 12 ⟨#[], ()⟩ = some (r, j, ν) ∧
      (∀ x ∈ ["t", "u"], j.machine.store.get? globalScope x = some v) ∧
      ∀ s : Store, s.Affirms .same v v ∧ s.Affirms .eq v v := by
  intro pair p i v
  have parsed : Program.ofSource p.source = .ok p := by cbv
  have equals : v.EqualsItself := by
    refine Value.equalsItself_tuple.2 fun u hu part held => ?_
    obtain rfl | rfl : u = .list ⟨0⟩ ∨ u = .int 1 := by simpa using hu
    · cases held with
      | self => rfl
    · cases held with
      | self => rfl
  have found : (i.run 12 ⟨#[], ()⟩).map (fun e => ["t", "u"].map
      (e.2.1.machine.store.get? globalScope)) = some [some v, some v] := by cbv
  obtain ⟨⟨r, j, ν⟩, ended, values⟩ := Option.map_eq_some_iff.1 found
  have both : ∀ x ∈ ["t", "u"], j.machine.store.get? globalScope x = some v := by
    simpa using values
  have met {sights : List Sight} : Met j.machine.store [] sights v :=
    .stored (.binding (both "t" (by decide)))
  have laws := (identity_coherent (.run (.new .steady) ended) 0 ν).1.2 v v v met met met
  refine ⟨parsed, rfl, equals, r, j, ν, ended, both, fun s => ?_⟩
  have same : s.Affirms .same v v := (laws s).refl.2 rfl
  exact ⟨same, ((laws s).equal same).2.2 equals⟩

/-- A bound method that is read twice is not the same object, and a tuple of it is the same object
as itself but not equal to it. -/
theorem read_twice_not_same :
    let source := "m = [].append\nt = (m,)\ny = (m is m, t is t, t == t)\n"
    ((Program.ofSource source).toOption.bind fun p =>
      ((new p .default .steady : Interpreter Unit).run 30 ⟨#[], ()⟩).bind fun (_, j, _) =>
        (j.global "y").bind (·.text)) = some "(False, True, False)" := by
  cbv

end Interpreter

end Footprint
