import Footprint.Proofs.Columns

set_option autoImplicit false

/-!
An augmented assignment to a name beside the assignment that spells it out. The function they stand
in binds the same names, and unless a list is extended in place they do the same, whatever their
operand does to the name.
-/

namespace Footprint

/-! ### Names that the function binds -/

/-- The second block is the first one with one statement, at some depth, put in place of another. -/
inductive Exchanged (s t : Stmt) : List Stmt → List Stmt → Prop
  | here (rest : List Stmt) : Exchanged s t (s :: rest) (t :: rest)
  | later (u : Stmt) {b b' : List Stmt} : Exchanged s t b b' → Exchanged s t (u :: b) (u :: b')
  | forBody (target iter : Expr) (orelse : List Stmt) (p : Position) (rest : List Stmt)
      {b b' : List Stmt} : Exchanged s t b b' →
      Exchanged s t (.forLoop target iter b orelse p :: rest)
        (.forLoop target iter b' orelse p :: rest)
  | forElse (target iter : Expr) (body : List Stmt) (p : Position) (rest : List Stmt)
      {b b' : List Stmt} : Exchanged s t b b' →
      Exchanged s t (.forLoop target iter body b p :: rest) (.forLoop target iter body b' p :: rest)
  | whileBody (test : Expr) (orelse : List Stmt) (p : Position) (rest : List Stmt)
      {b b' : List Stmt} : Exchanged s t b b' →
      Exchanged s t (.whileLoop test b orelse p :: rest) (.whileLoop test b' orelse p :: rest)
  | whileElse (test : Expr) (body : List Stmt) (p : Position) (rest : List Stmt)
      {b b' : List Stmt} : Exchanged s t b b' →
      Exchanged s t (.whileLoop test body b p :: rest) (.whileLoop test body b' p :: rest)
  | condBody (test : Expr) (orelse : List Stmt) (p : Position) (rest : List Stmt)
      {b b' : List Stmt} : Exchanged s t b b' →
      Exchanged s t (.cond test b orelse p :: rest) (.cond test b' orelse p :: rest)
  | condElse (test : Expr) (body : List Stmt) (p : Position) (rest : List Stmt)
      {b b' : List Stmt} : Exchanged s t b b' →
      Exchanged s t (.cond test body b p :: rest) (.cond test body b' p :: rest)
  | withBody (items : List WithItem) (p : Position) (rest : List Stmt) {b b' : List Stmt} :
      Exchanged s t b b' →
      Exchanged s t (.withBlock items b p :: rest) (.withBlock items b' p :: rest)
  | tryBody (handlers : List Handler) (orelse final : List Stmt) (p : Position) (rest : List Stmt)
      {b b' : List Stmt} : Exchanged s t b b' →
      Exchanged s t (.tryBlock b handlers orelse final p :: rest)
        (.tryBlock b' handlers orelse final p :: rest)
  | tryClause (body : List Stmt) (before after : List Handler) (kind : Option Expr)
      (name : Option String) (q : Position) (orelse final : List Stmt) (p : Position)
      (rest : List Stmt) {b b' : List Stmt} : Exchanged s t b b' →
      Exchanged s t
        (.tryBlock body (before ++ .clause kind name b q :: after) orelse final p :: rest)
        (.tryBlock body (before ++ .clause kind name b' q :: after) orelse final p :: rest)
  | tryElse (body : List Stmt) (handlers : List Handler) (final : List Stmt) (p : Position)
      (rest : List Stmt) {b b' : List Stmt} : Exchanged s t b b' →
      Exchanged s t (.tryBlock body handlers b final p :: rest)
        (.tryBlock body handlers b' final p :: rest)
  | tryFinal (body : List Stmt) (handlers : List Handler) (orelse : List Stmt) (p : Position)
      (rest : List Stmt) {b b' : List Stmt} : Exchanged s t b b' →
      Exchanged s t (.tryBlock body handlers orelse b p :: rest)
        (.tryBlock body handlers orelse b' p :: rest)

section

variable {s t : Stmt} {b b' : List Stmt}

theorem assignedInHandlers_append (before after : List Handler) :
    assignedInHandlers (before ++ after) = assignedInHandlers before ++ assignedInHandlers after := by
  induction before with
  | nil => rfl
  | cons h hs ih =>
    cases h
    simp only [List.cons_append, assignedInHandlers, ih, List.append_assoc]

theorem declaredInHandlers_append (declares : Stmt → List String) (before after : List Handler) :
    declaredInHandlers declares (before ++ after) =
      declaredInHandlers declares before ++ declaredInHandlers declares after := by
  induction before with
  | nil => rfl
  | cons h hs ih =>
    cases h
    simp only [List.cons_append, declaredInHandlers, ih, List.append_assoc]

theorem Exchanged.assignedIn_eq (h : Exchanged s t b b') (same : s.assigned = t.assigned) :
    assignedIn b = assignedIn b' := by
  induction h with
  | here rest => simp only [assignedIn, same]
  | _ => simp only [assignedIn, Stmt.assigned, assignedInHandlers_append, assignedInHandlers, *]

theorem Exchanged.declaredIn_eq {declares : Stmt → List String} (h : Exchanged s t b b')
    (same : s.declared declares = t.declared declares) :
    declaredIn declares b = declaredIn declares b' := by
  induction h with
  | here rest => simp only [declaredIn, same]
  | _ => simp only [declaredIn, Stmt.declared, declaredInHandlers_append, declaredInHandlers, *]

/-- Statements that bind and declare the same names may stand for each other. -/
theorem Exchanged.ofFunction_eq (h : Exchanged s t b b') (params : List Param)
    (assigned : s.assigned = t.assigned)
    (globals : s.declared Stmt.globalNames = t.declared Stmt.globalNames)
    (nonlocals : s.declared Stmt.nonlocalNames = t.declared Stmt.nonlocalNames) :
    Bound.ofFunction params b = Bound.ofFunction params b' := by
  unfold Bound.ofFunction
  rw [h.assignedIn_eq assigned, h.declaredIn_eq globals, h.declaredIn_eq nonlocals]

end

variable {σ : Type}

/-- The name has a list, and the operator is the one that extends a list in place. -/
def Machine.AddsToList (m : Machine σ) (op : BinaryOp) (x : String) : Prop :=
  op = .add ∧ ∃ r, m.store.resolve (m.stack.back?.getD .top).kind x = .ok (.list r)

namespace Setting

open Footprint.Action

/-! ### What both do -/

theorem ask_done {env : Setting σ} {e : Event} {c : Control} {m m' : Machine σ}
    (h : env.ask e m = .done c m') : ∃ monitor, m' = { m with monitor } := by
  rw [ask_apply] at h
  split at h
  · split at h
    · split at h
      · cases h
        exact ⟨_, rfl⟩
      · cases h
    · cases h
      exact ⟨m.monitor, rfl⟩
  · cases h
    exact ⟨m.monitor, rfl⟩

theorem kind_modify (stack : Array Frame) (n : Nat) :
    ((stack.modify (stack.size - 1) ({ · with line := n })).back?.getD .top).kind =
      (stack.back?.getD .top).kind := by
  simp only [Array.back?, Array.size_modify, Array.getElem?_modify, if_true]
  cases stack[stack.size - 1]? <;> rfl

/-- Nothing is bound and no frame is begun when a line is told. -/
theorem markLine_keeps {env : Setting σ} {n : Nat} {m m' : Machine σ}
    (h : env.markLine n m = .done () m') :
    m'.store = m.store ∧ (m'.stack.back?.getD .top).kind = (m.stack.back?.getD .top).kind := by
  obtain ⟨_, m₁, checked, rest⟩ := bind_eq_done.1 h
  obtain ⟨_, m₂, moved, told⟩ := bind_eq_done.1 rest
  obtain ⟨_, m₃, asked, ended⟩ := bind_eq_done.1 told
  obtain ⟨timer, same | ⟨missed, same⟩⟩ := env.checkDeadline_apply m
  · cases same.symm.trans checked
    cases moved
    obtain ⟨monitor, rfl⟩ := ask_done asked
    cases ended
    exact ⟨rfl, kind_modify m.stack n⟩
  · cases same.symm.trans checked

theorem markLines_keeps {env : Setting σ} {ns : List Nat} {m m' : Machine σ}
    (h : env.markLines ns m = .done () m') :
    m'.store = m.store ∧ (m'.stack.back?.getD .top).kind = (m.stack.back?.getD .top).kind := by
  induction ns generalizing m with
  | nil =>
    cases h
    exact ⟨rfl, rfl⟩
  | cons n ns ih =>
    obtain ⟨_, m₁, told, rest⟩ := bind_eq_done.1 h
    obtain ⟨store, kind⟩ := markLine_keeps told
    obtain ⟨store', kind'⟩ := ih rest
    exact ⟨store'.trans store, kind'.trans kind⟩

variable {env : Setting σ} {m m' : Machine σ} {x : String} {op : BinaryOp} {e e' : Expr}
  {p q p₁ p₂ p₃ q' : Position}

theorem augmented_eq_binary {current : Value} (h : ¬(op = .add ∧ ∃ r, current = .list r))
    (operand : Value) (p : Position) :
    env.augmented op current operand p = editAt p (·.binary op current operand) := by
  unfold augmented
  split
  · next r => exact absurd ⟨rfl, r, rfl⟩ h
  · rfl

/-- The value that is bound to the name. -/
theorem abreast_augmentedName (n : Nat) (alike : e.Abreast e') (hp₂ : p.line = p₂.line)
    (hp₃ : p.line = p₃.line) (hm : m.Abreast m')
    (noList : ¬m.AddsToList op x) :
    (env.augmentedName (env.calls (n + 1)) x p op e m).Abreast
      ((env.calls (n + 2)).eval (.binary op (.name x p₂) e' p₃) m') := by
  change ((do
      let current ← (do let k ← frameKind; readAt p (·.resolve k x) : Action σ Value)
      let operand ← (env.calls (n + 1)).eval e
      env.augmented op current operand p : Action σ Value) m).Abreast
    ((do
      let current ← (do let k ← frameKind; readAt p₂ (·.resolve k x) : Action σ Value)
      let operand ← (env.calls (n + 1)).eval e'
      editAt p₃ (·.binary op current operand) : Action σ Value) m')
  have found : Abreast (do let k ← frameKind; readAt p (·.resolve k x) : Action σ Value)
      (do let k ← frameKind; readAt p₂ (·.resolve k x)) :=
    Abreast.frameKind.bind fun k => .readAt hp₂ _
  refine Abreast.bindAt (found hm) fun current m₁ m₁' same hm₁ => ?_
  have scalar : ¬(op = .add ∧ ∃ r, current = .list r) := by
    rintro ⟨rfl, r, rfl⟩
    refine noList ⟨rfl, r, ?_⟩
    simp only [bind_apply, frameKind, readAt, observe] at same
    cases resolved : m.store.resolve (m.stack.back?.getD .top).kind x with
    | error f =>
      rw [resolved] at same
      cases same
    | ok v =>
      rw [resolved] at same
      cases same
      rfl
  refine Abreast.bind (env.abreast_evaluate (n + 1) (.expr alike)) (fun operand => ?_) hm₁
  rw [augmented_eq_binary scalar]
  exact .editAt hp₃ _

theorem bind_pure_unit (x : Action σ Unit) : (do x; return () : Action σ Unit) = x := by
  funext m
  rw [bind_apply]
  cases x m <;> rfl

/-- An augmented assignment to a name beside the assignment that spells it out, which takes one more
step. -/
theorem abreast_augment (n : Nat) (alike : e.Abreast e') (hq : p.line = q.line)
    (hp₂ : p.line = p₂.line) (hp₃ : p.line = p₃.line) (hq' : p.line = q'.line)
    (noList : ¬m.AddsToList op x) :
    (env.execute (n + 2) (.stmt (.augment (.name x p) op e q)) m).Abreast
      (env.execute (n + 3) (.stmt (.assign [.name x p₁] (.binary op (.name x p₂) e' p₃) q')) m) := by
  have lines : q.line = q'.line := hq.symm.trans hq'
  change (env.reporting (do
      setPos q; env.markLines [q.line]
      env.augment (env.calls (n + 1)) (.name x p) op e q) m).Abreast
    (env.reporting (do
      setPos q'; env.markLines [q'.line]
      let v ← (env.calls (n + 2)).eval (.binary op (.name x p₂) e' p₃)
      do store x v; return ()) m)
  rw [augment_name_eq, ← lines]
  refine Abreast.reportingAt env ?_
  refine Abreast.bindAt (Abreast.setPos lines (.refl m)) fun _ m₁ m₁' placed h₁ => ?_
  refine Abreast.bindAt (Abreast.markLines env _ h₁) fun _ m₂ m₂' told h₂ => ?_
  cases placed
  obtain ⟨store, kind⟩ := markLines_keeps told
  unfold Machine.AddsToList at noList
  rw [← store, ← kind] at noList
  refine Abreast.bindAt (abreast_augmentedName n alike hp₂ hp₃ h₂ noList) fun v m₃ m₃' _ h₃ => ?_
  rw [bind_pure_unit]
  exact Abreast.store x v h₃

/-! ### How they end -/

/-- Run on the machine, the statement ends so, with some number of steps. -/
def Finishes (env : Setting σ) (s : Stmt) (m : Machine σ) (r : Ending σ Unit) : Prop :=
  (∃ n, env.execute n (.stmt s) m = r) ∧ ∀ m', r ≠ .unfinished m'

theorem Finishes.of_le {s : Stmt} {r : Ending σ Unit} (h : env.Finishes s m r) :
    ∃ n, ∀ k, n ≤ k → env.execute k (.stmt s) m = r := by
  obtain ⟨⟨n, ended⟩, finished⟩ := h
  refine ⟨n, fun k hk => ?_⟩
  have owned : (Code.top ⟨[s]⟩).Owns s := .body List.mem_cons_self
  rcases (env.calls_extends hk).run (c := .top ⟨[s]⟩) trivial (.stmt s) owned m with
    same | ⟨m', unfinished⟩
  · exact same.symm.trans ended
  · exact absurd (ended.symm.trans unfinished) (finished m')

/-- An augmented assignment to a name and the assignment that spells it out on the same line bind
the same names for the function they stand in. Unless the name has a list and is added to, one of
them ends if the other does, both end with the same failure or with none, and leave the same machine
up to the column where it stands: the same bindings, lists, output and state of the listener. -/
theorem augmented_name_spelled_out (env : Setting σ) (m : Machine σ) (x : String) (op : BinaryOp)
    (alike : e.Abreast e') (hq : p.line = q.line) (hp₂ : p.line = p₂.line)
    (hp₃ : p.line = p₃.line) (hq' : p.line = q'.line)
    (noList : ¬m.AddsToList op x) :
    let augmented : Stmt := .augment (.name x p) op e q
    let plain : Stmt := .assign [.name x p₁] (.binary op (.name x p₂) e' p₃) q'
    (∀ params body body', Exchanged augmented plain body body' →
      Bound.ofFunction params body = Bound.ofFunction params body') ∧
    (∀ r, env.Finishes augmented m r → ∃ r', env.Finishes plain m r' ∧ r.Abreast r') ∧
    ∀ r', env.Finishes plain m r' → ∃ r, env.Finishes augmented m r ∧ r.Abreast r' := by
  intro augmented plain
  have both (n : Nat) : (env.execute (n + 2) (.stmt augmented) m).Abreast
      (env.execute (n + 3) (.stmt plain) m) :=
    abreast_augment n alike hq hp₂ hp₃ hq' noList
  refine ⟨fun params body body' h => h.ofFunction_eq params rfl rfl rfl, fun r h => ?_,
    fun r' h => ?_⟩
  · obtain ⟨n, ended⟩ := h.of_le
    have abreast := both n
    rw [ended (n + 2) (Nat.le_add_right n 2)] at abreast
    exact ⟨_, ⟨⟨n + 3, rfl⟩, abreast.ended_iff.1 h.2⟩, abreast⟩
  · obtain ⟨n, ended⟩ := h.of_le
    have abreast := both n
    rw [ended (n + 3) (Nat.le_add_right n 3)] at abreast
    exact ⟨_, ⟨⟨n + 2, rfl⟩, abreast.ended_iff.2 h.2⟩, abreast⟩

/-- With one in `x`, adding two to it leaves three, however it is written. -/
theorem augmented_name_spelled_out_sum :
    let env : Setting Unit := ⟨.default, .steady, none⟩
    let m : Machine Unit :=
      { Machine.initial () with store := Store.initial.set globalScope "x" (.int 1) }
    let m' : Machine Unit :=
      { Machine.initial () with store := Store.initial.set globalScope "x" (.int 3) }
    ¬m.AddsToList .add "x" ∧
      env.Finishes (.augment (.name "x" ⟨1, 1⟩) .add (.const (.int 2) ⟨1, 6⟩) ⟨1, 1⟩) m
        (.done () m') ∧
      ∃ r', env.Finishes (.assign [.name "x" ⟨1, 1⟩]
        (.binary .add (.name "x" ⟨1, 5⟩) (.const (.int 2) ⟨1, 10⟩) ⟨1, 5⟩) ⟨1, 1⟩) m r' ∧
        Ending.Abreast (.done () m') r' := by
  intro env m m'
  have noList : ¬m.AddsToList .add "x" := by
    have one : m.store.resolve (m.stack.back?.getD .top).kind "x" = .ok (.int 1) := rfl
    rintro ⟨-, r, list⟩
    cases one.symm.trans list
  have alike : (Expr.const (.int 2) ⟨1, 6⟩).Abreast (.const (.int 2) ⟨1, 10⟩) := rfl
  have start : (⟨1, 1⟩ : Position).line = (⟨1, 1⟩ : Position).line := rfl
  have later : (⟨1, 1⟩ : Position).line = (⟨1, 5⟩ : Position).line := rfl
  have finishes : env.Finishes (.augment (.name "x" ⟨1, 1⟩) .add (.const (.int 2) ⟨1, 6⟩) ⟨1, 1⟩)
      m (.done () m') := ⟨⟨2, rfl⟩, nofun⟩
  refine ⟨noList, finishes, ?_⟩
  exact (augmented_name_spelled_out env m "x" .add alike start later later start noList).2.1 _
    finishes

end Setting

end Footprint
