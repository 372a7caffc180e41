import Footprint.Proofs.GoodNotes

set_option autoImplicit false

/-!
What the rules of running rely on in a tree. Things are done to targets only, and each operator of a
comparison has its operand; the parser sees to it for every script. So no run of a parsed program ever
finds something other than a target where it is to assign or to delete.
-/

namespace Footprint

open Footprint.Action Footprint.Setting

/-! ### Targets -/

theorem Expr.isTarget_of_isAssignable {e : Expr} (h : e.isAssignable = true) :
    e.isTarget = true := by
  cases e with
  | name | member | subscript | tuple | list => rfl
  | _ => cases h

theorem Stmt.Shaped.isAssignable {s : Stmt} (h : s.Shaped) :
    ∀ e ∈ s.targets, e.isAssignable = true := by
  cases s with
  | delete targets | assign targets => exact h.2
  | augment target | annotate target =>
    exact List.forall_mem_singleton.2 (Expr.isAssignable_of_isSingleTarget h)
  | forLoop target => exact List.forall_mem_singleton.2 h.1
  | _ => exact List.forall_mem_nil _

section

variable {s : Script} {c : Code}

theorem Script.Contains.shaped (formed : (Node.script s).Formed) (contained : s.Contains c)
    {t : Stmt} (owns : c.Owns t) : t.Shaped := by
  have within : Node.stmt t ∈ (Node.script s).walk := by
    rw [← Node.map_snd_owned (.top s)]
    exact List.mem_map_of_mem (contained.owns owns)
  exact (formed _ within).shaped

/-- The items of what may be assigned to may be assigned to. -/
theorem Code.Targets.isAssignable (shaped : ∀ t, c.Owns t → t.Shaped) {e : Expr}
    (h : c.Targets e) : e.isAssignable = true := by
  induction h with
  | stmt owns he => exact (shaped _ owns).isAssignable _ he
  | tuple _ he ih | list _ he ih => exact Expr.areAssignable_iff.1 ih _ he

/-- In a script that has been parsed things are done to targets only. -/
theorem Script.Contains.not_rejects (formed : (Node.script s).Formed) (contained : s.Contains c) :
    ¬ c.Rejects := by
  have shaped (t : Stmt) (owns : c.Owns t) : t.Shaped := contained.shaped formed owns
  rintro (⟨targets, other⟩ | ⟨owns, other⟩)
  · rw [Expr.isTarget_of_isAssignable (targets.isAssignable shaped)] at other
    cases other
  · have single := shaped _ owns
    rw [show _ = true from single] at other
    cases other

end

/-! ### Comparisons -/

section

variable {σ : Type} (c : Calls σ) (p : Position)

/-- The links of a comparison hold from a value on: each operand has been evaluated after those
before it, and it compares with the one before it as the operator says. -/
inductive LinksHold : Value → List (CompareOp × Expr) → Machine σ → Machine σ → Prop
  | nil (a : Value) (m : Machine σ) : LinksHold a [] m m
  | cons {a b : Value} {op : CompareOp} {e : Expr} {links : List (CompareOp × Expr)}
      {m m₁ m₂ m' : Machine σ} : c.eval e m = .done b m₁ →
      attemptAt p (·.compare op a b) m₁ = .done true m₂ → LinksHold b links m₂ m' →
      LinksHold a ((op, e) :: links) m m'

variable {c p}

/-- A comparison is true if and only if all its links hold; none is left out. -/
theorem evalLinks_true_iff {a : Value} {links : List (CompareOp × Expr)} {m m' : Machine σ} :
    evalLinks c.value p a links m = .done (.bool true) m' ↔ LinksHold c p a links m m' := by
  induction links generalizing a m with
  | nil =>
    constructor
    · intro h
      cases h
      exact .nil _ _
    · rintro ⟨⟩
      rfl
  | cons link links ih =>
    obtain ⟨op, e⟩ := link
    have unfolded : evalLinks c.value p a ((op, e) :: links) m = (do
        let b ← c.eval e
        if ← attemptAt p (·.compare op a b) then evalLinks c.value p b links
        else return .bool false) m := rfl
    rw [unfolded, bind_eq_done]
    constructor
    · rintro ⟨b, m₁, evaluated, rest⟩
      obtain ⟨truth, m₂, compared, ended⟩ := bind_eq_done.1 rest
      cases truth with
      | true => exact .cons evaluated compared (ih.1 ended)
      | false => cases ended
    · rintro (_ | ⟨evaluated, compared, hold⟩)
      exact ⟨_, _, evaluated, bind_eq_done.2 ⟨_, _, compared, ih.2 hold⟩⟩

theorem eval_compare_true_iff {left : Expr} {links : List (CompareOp × Expr)}
    {m m' : Machine σ} :
    evalExpr c (.compare left links p) m = .done (.bool true) m' ↔
      ∃ a m₁, c.eval left m = .done a m₁ ∧ LinksHold c p a links m₁ m' := by
  have unfolded : evalExpr c (.compare left links p) m =
      (do let a ← c.eval left; evalLinks c.value p a links) m := rfl
  simp only [unfolded, bind_eq_done, evalLinks_true_iff]

end

/-! ### Runs and calls -/

section

variable {ω : Type}

/-- Takes a note of each fault that is about to be raised because an expression is no target. -/
def Probe.rejections : Probe (Monitors (ω × List Fault)) where
  naming _ := pure ()
  entering := pure ()
  rejecting f m := .done () { m with monitor := m.monitor.addNote f }

theorem Probe.takesNotes_rejections :
    (Probe.rejections : Probe (Monitors (ω × List Fault))).TakesNotes where
  naming _ := .pure ()
  entering := .pure ()
  rejecting _ := Probe.alike_note _

theorem Probe.attends_rejections {s : Script} (formed : (Node.script s).Formed) :
    (noteRegime ω s fun (_ : Fault) => False).Attends .rejections where
  entering := rfl
  rejecting _ contained rejects := absurd rejects (contained.not_rejects formed)
  naming _ _ w' _ _ ready := ⟨w', trivial, ready.same rfl rfl rfl rfl, trivial⟩

namespace Interpreter

variable {source : String} {p : Program} {limits : Limits} {i : Interpreter ω}
  {given : List Value} {film : List Scene}

section

set_option maxRecDepth 1000

end

end Interpreter

end

end Footprint
