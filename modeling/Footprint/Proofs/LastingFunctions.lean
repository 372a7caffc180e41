import Footprint.Proofs.Protocol

set_option autoImplicit false

/-!
Functions last: whatever is done after a function has been made, it is found in the store as it was
made, with the same default values and in the same scope.
-/

namespace Footprint

namespace Store

/-- The functions of the first store are found in the second one as they are. -/
def FunctionsLast (s t : Store) : Prop := ∀ r f, s.function? r = some f → t.function? r = some f

namespace FunctionsLast

variable {s t u : Store}

theorem refl (s : Store) : s.FunctionsLast s := fun _ _ h => h

theorem trans (h : s.FunctionsLast t) (h' : t.FunctionsLast u) : s.FunctionsLast u :=
  fun r f found => h' r f (h r f found)

theorem of_eq (h : t.functions = s.functions) : s.FunctionsLast t := by
  intro r f found
  rwa [function?, h]

end FunctionsLast

/-- A new function is put after the ones that there are. -/
theorem functionsLast_newFunction (c : Closure) (s : Store) :
    s.FunctionsLast (newFunction c s).2 := by
  intro r f found
  have inside : r.index < s.functions.size := (Array.getElem?_eq_some_iff.1 found).1
  change (s.functions.push c)[r.index]? = some f
  rwa [Array.getElem?_push_lt inside, ← Array.getElem?_eq_getElem inside]

end Store

namespace Action

variable {σ α β : Type}

/-- Whatever the computation does, the functions in the store last. -/
def Lasting (x : Action σ α) : Prop :=
  ∀ m : Machine σ, m.store.FunctionsLast (x m).machine.store

namespace Lasting

/-- A step that leaves the functions in the store as they are. -/
theorem still {x : Action σ α} (h : ∀ m, (x m).machine.store.functions = m.store.functions) :
    x.Lasting := fun m => .of_eq (h m)

theorem pure (a : α) : (pure a : Action σ α).Lasting := still fun _ => rfl

theorem bind {x : Action σ α} {f : α → Action σ β} (hx : x.Lasting) (hf : ∀ a, (f a).Lasting) :
    (x >>= f).Lasting := by
  intro m
  have first := hx m
  rw [bind_apply]
  cases hr : x m with
  | done a m' =>
    rw [hr] at first
    exact first.trans (hf a m')
  | failed f m' | unfinished m' =>
    rw [hr] at first
    exact first

theorem observe (f : Store → Option (Except Failure α)) :
    (observe f : Action σ α).Lasting := by
  apply still
  intro m
  unfold Action.observe
  split <;> rfl

theorem editAt (p : Position) {plan : Store → Except Fault (Edit α)}
    (keeps : ∀ s e, plan s = .ok e → (e s).2.functions = s.functions) :
    (editAt p plan : Action σ α).Lasting := by
  apply still
  intro m
  unfold Action.editAt
  split
  · next e planned =>
    rw [edit_apply]
    exact keeps m.store e planned
  · rfl

theorem newFunction (c : Closure) : (edit (Store.newFunction c) : Action σ Value).Lasting := by
  intro m
  rw [edit_apply]
  exact Store.functionsLast_newFunction c m.store

theorem proceed {x y : Action σ Unit} {h : Failure → Action σ Unit} (hx : x.Lasting)
    (hy : y.Lasting) (hh : ∀ f, (h f).Lasting) : (proceed x y h).Lasting := by
  intro m
  have first := hx m
  unfold Action.proceed
  cases hr : x m with
  | done a m' =>
    rw [hr] at first
    dsimp only
    split
    · exact first.trans (hy m')
    · exact first
  | failed f m' =>
    rw [hr] at first
    exact first.trans (hh f m')
  | unfinished m' =>
    rw [hr] at first
    exact first

theorem round {x y : Action σ Unit} (hx : x.Lasting) (hy : y.Lasting) : (round x y).Lasting := by
  intro m
  have first := hx m
  unfold Action.round
  cases hr : x m with
  | done a m' =>
    rw [hr] at first
    dsimp only
    cases m'.jump with
    | none => exact first.trans (hy m')
    | cont => exact first.trans (hy { m' with jump := .none })
    | brk | ret => exact first
  | failed f m' | unfinished m' =>
    rw [hr] at first
    exact first

theorem putAside {x : Action σ Unit} (hx : x.Lasting) {pending : Machine σ → Ending σ Unit}
    (hp : Lasting pending) : (putAside x pending).Lasting := by
  intro m
  have final := hx { m with jump := .none, returned := .none }
  rw [putAside_apply]
  cases hr : x { m with jump := .none, returned := .none } with
  | done a m' =>
    rw [hr] at final
    dsimp only
    split
    · exact final.trans (hp { m' with jump := m.jump, returned := m.returned })
    · exact final
  | failed f m' | unfinished m' =>
    rw [hr] at final
    exact final

theorem lastly {x y : Action σ Unit} (hx : x.Lasting) (hy : y.Lasting) :
    (lastly x y).Lasting := by
  intro m
  have first := hx m
  unfold Action.lastly
  cases hr : x m with
  | done a m' =>
    rw [hr] at first
    exact first.trans (hy.putAside (still fun _ => rfl) m')
  | failed f m' =>
    rw [hr] at first
    exact first.trans (hy.putAside (still fun _ => rfl) m')
  | unfinished m' =>
    rw [hr] at first
    exact first

/-- A computation that runs another one, from the same store, and does nothing to the functions
itself. -/
theorem around {x : Action σ α} {y : Action σ β} (hx : x.Lasting)
    (h : ∀ m : Machine σ, ∃ m' : Machine σ, m'.store = m.store ∧
      (y m).machine.store.functions = (x m').machine.store.functions) : y.Lasting := by
  intro m
  obtain ⟨m', same, kept⟩ := h m
  have inner := hx m'
  rw [same] at inner
  exact inner.trans (.of_eq kept)

theorem backAt {x : Action σ α} (hx : x.Lasting) (p : Position) : (backAt p x).Lasting := by
  refine hx.around fun m => ⟨m, rfl, ?_⟩
  unfold Action.backAt
  cases x m <;> rfl

theorem whileHandling {x : Action σ Unit} (hx : x.Lasting) (f : Failure) :
    (whileHandling f x).Lasting := by
  refine hx.around fun m => ⟨{ m with handling := f :: m.handling }, rfl, ?_⟩
  unfold Action.whileHandling
  cases x { m with handling := f :: m.handling } <;> rfl

theorem thenForget {x : Action σ Unit} (hx : x.Lasting) (name : Option String) :
    (thenForget name x).Lasting := by
  cases name with
  | none => exact hx
  | some name =>
    refine hx.around fun m => ⟨m, rfl, ?_⟩
    unfold Action.thenForget
    dsimp only
    cases x m with
    | done a m' | failed e m' => exact forget_functions m' name
    | unfinished m' => rfl

theorem inHostFrame {x : Action σ Value} (hx : x.Lasting) : (inHostFrame x).Lasting := by
  refine hx.around fun m => ⟨{ m with stack := m.stack.push .host }, rfl, ?_⟩
  unfold Action.inHostFrame
  cases x { m with stack := m.stack.push .host } <;> rfl

/-! ### Events and frames -/

section

variable (env : Setting σ)

theorem modifyFrame (f : Frame → Frame) : (modifyFrame f : Action σ Unit).Lasting :=
  still fun _ => rfl

theorem frame : (frame : Action σ Frame).Lasting := still fun _ => rfl

theorem ask (e : Event) : (env.ask e).Lasting := by
  apply still
  intro m
  rw [Setting.ask_eq_hear]
  cases m.stack.back? with
  | none => rfl
  | some f =>
    dsimp only
    split <;> rfl

theorem tell (e : Event) : (env.tell e).Lasting := (ask env e).bind fun _ => .pure ()

theorem checkDeadline : env.checkDeadline.Lasting := by
  apply still
  intro m
  obtain ⟨timer, h | ⟨missed, h⟩⟩ := env.checkDeadline_apply m
  · rw [h]
    rfl
  · rw [h]
    rfl

theorem markLine (n : Nat) : (env.markLine n).Lasting :=
  (checkDeadline env).bind fun _ => (modifyFrame _).bind fun _ => tell env .line

theorem report (f : Failure) : (env.report f).Lasting := by
  refine frame.bind fun g => ?_
  split
  · exact (modifyFrame _).bind fun _ => tell env .exception
  · exact .pure ()

theorem announce : env.announce.Lasting := by
  refine (ask env .call).bind fun answer => ?_
  split
  · exact modifyFrame _
  · exact .pure ()

theorem markHeader : env.markHeader.Lasting := by
  refine frame.bind fun f => ?_
  split
  · exact markLine env _
  · exact .pure ()

theorem finish (r : Ending σ Value) :
    r.machine.store.FunctionsLast (env.finish r).machine.store := by
  unfold Setting.finish
  cases r with
  | done v m | failed f m =>
    have told := tell env .ret { m with jump := .none }
    dsimp only
    cases ht : env.tell .ret { m with jump := .none } with
    | done a k | failed e k | unfinished k =>
      rw [ht] at told
      exact told
  | unfinished m => exact .refl _

theorem inFrame (f : Frame) {x : Action σ Unit} (hx : x.Lasting) :
    (env.inFrame f x).Lasting := by
  have push : (push f : Action σ Unit).Lasting := still fun _ => rfl
  have result : (result : Action σ Value).Lasting := by
    apply still
    intro m
    rw [result_apply]
    split <;> rfl
  have body : (do Action.push f; env.announce; env.markHeader; x; Action.result).Lasting :=
    push.bind fun _ => (announce env).bind fun _ => (markHeader env).bind fun _ =>
      hx.bind fun _ => result
  intro m
  unfold Setting.inFrame
  split
  · exact .refl _
  · exact (body m).trans (finish env _)

end

/-! ### Runs -/

/-- The computations after which the functions of before are there. -/
def relation (σ : Type) : RunRelation σ σ where
  known _ := True
  expr _ _ x _ := x.Lasting
  stmt _ x _ := x.Lasting
  final _ x _ := x.Lasting

theorem closed (env : Setting σ) : (relation σ).Closed env env where
  pure _ _ a := .pure a
  bind := bind
  observe _ _ f := .observe f
  editAt _ _ p _ keeps := .editAt p keeps
  newFunction _ _ _ := newFunction _
  frameKind _ := still fun _ => rfl
  getPos _ := still fun _ => rfl
  setPos _ _ := still fun _ => rfl
  write _ _ := still fun _ => rfl
  reraise _ p := by
    apply still
    intro m
    unfold Action.reraise
    split <;> rfl
  checkDeadline _ := checkDeadline env
  markLine _ := markLine env _
  lookup _ _ _ h := (observe _).bind fun found => h found fun _ _ => trivial
  inFrame _ _ h := inFrame env _ h
  backAt p h := backAt h p
  known_classBody _ _ := trivial
  ofExpr h := h
  andThen := bind
  setJump _ _ := still fun _ => rfl
  giveBack _ _ := still fun _ => rfl
  proceed hx hy hh _ := proceed hx hy hh
  round := round
  lastly := lastly

theorem encloses (env : Setting σ) : (relation σ).Encloses env env where
  reporting {c} x _ hx := (closed env).reporting (c := c) (y := x) (report env) hx
  clause {c} f name _ _ hx := by
    have bound : (bindCaught f name : Action σ Unit).Lasting :=
      ((closed env).steps c).bindCaught f name
    exact (modifyFrame _).bind fun _ => bound.bind fun _ => (whileHandling hx f).thenForget name

end Lasting

end Action

/-- Every request may be made while some code object is running. -/
theorem Code.exists_allows (t : Execution) : ∃ c : Code, c.Allows t := by
  have alone (s : Stmt) : (Code.top ⟨[s]⟩).Owns s := .body List.mem_cons_self
  cases t with
  | block body => exact ⟨.top ⟨body⟩, Code.allows_body _⟩
  | stmt s => exact ⟨_, alone s⟩
  | whileRounds test body orelse p => exact ⟨_, alone (.whileLoop test body orelse p)⟩
  | forRounds target items body orelse p =>
    exact ⟨_, target, alone (.forLoop target target body orelse p)⟩
  | clause f h =>
    exact ⟨_, [], [h], [], [], h.pos, alone (.tryBlock [] [h] [] [] h.pos), List.mem_cons_self⟩

namespace Setting

open Footprint.Action

variable {σ : Type} (env : Setting σ) (n : Nat)

theorem lasting_calls : (Lasting.relation σ).Agree (env.calls n) (env.calls n) :=
  (Lasting.closed env).calls (Lasting.encloses env) id n

theorem lasting_evaluate (t : Evaluation) : (env.evaluate n t).Lasting :=
  (env.lasting_calls n).value (c := .top ⟨[]⟩) trivial t

theorem lasting_place (t : Placement) : (env.place n t).Lasting :=
  (env.lasting_calls n).place (c := .top ⟨[]⟩) trivial t

theorem lasting_execute (t : Execution) : (env.execute n t).Lasting := by
  obtain ⟨c, allowed⟩ := Code.exists_allows t
  exact (env.lasting_calls n).run (c := c) trivial t allowed

theorem lasting_runScript (script : Script) : (env.runScript n script).Lasting := by
  have started : env.startTimer.Lasting := .still fun _ => rfl
  have settled : (setJump .none : Action σ Unit).Lasting := .still fun _ => rfl
  have frame := Lasting.inFrame env .top (env.lasting_execute n (.block script.body))
  exact started.bind fun _ => settled.bind fun _ => frame.bind fun _ => .pure ()

theorem lasting_callGlobal (name : String) (args : List Value) :
    (env.callGlobal n name args).Lasting := by
  unfold callGlobal callWith
  refine (Lasting.observe _).bind fun callee => ?_
  cases callee with
  | none => exact .observe _
  | some v =>
    have started : env.startTimer.Lasting := .still fun _ => rfl
    have stands : (getPos : Action σ Position).Lasting := .still fun _ => rfl
    exact started.bind fun _ => Lasting.inHostFrame
      (stands.bind fun p => env.lasting_evaluate n (.call v args p))

end Setting

end Footprint
