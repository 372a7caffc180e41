import Mathlib.Data.List.ReduceOption
import Footprint.Proofs.FormedScripts
import Footprint.Proofs.LastingFunctions
import Footprint.Proofs.ScopeChains

set_option autoImplicit false

/-!
How a call binds the parameters of a function. Only the last parameters have defaults, so a function
keeps the values of these without their names, in the order in which its definition has evaluated
them; a call leaves out those of the parameters that it gives arguments for.
-/

namespace Footprint

open Footprint.Action Footprint.Setting

/-! ### Values for the last of several places -/

section

variable {α : Type} {os : List (Option α)}

/-- No place with a value is followed by one without. -/
def Trailing (os : List (Option α)) : Prop :=
  os.Pairwise fun a b => a.isSome = true → b.isSome = true

theorem Trailing.eq_append (last : Trailing os) :
    os = List.replicate (os.length - os.reduceOption.length) none ++ os.reduceOption.map some := by
  induction os with
  | nil => rfl
  | cons o os ih =>
    obtain ⟨after, rest⟩ := List.pairwise_cons.1 last
    have split := ih rest
    cases o with
    | none =>
      have fewer : os.reduceOption.length ≤ os.length := List.reduceOption_length_le os
      rw [List.reduceOption_cons_of_none, List.length_cons, Nat.succ_sub fewer,
        List.replicate_succ, List.cons_append, ← split]
    | some v =>
      have full : os.reduceOption.length = os.length :=
        List.reduceOption_length_eq_iff.2 fun b hb => after b hb rfl
      rw [full, Nat.sub_self, List.replicate_zero, List.nil_append] at split
      rw [List.reduceOption_cons_of_some, List.length_cons, List.length_cons, full, Nat.sub_self,
        List.replicate_zero, List.nil_append, List.map_cons, ← split]

theorem Trailing.getElem?_eq (last : Trailing os) {i : Nat}
    (h : os.length - os.reduceOption.length ≤ i) :
    os[i]? = os.reduceOption[i - (os.length - os.reduceOption.length)]?.map some := by
  conv_lhs => rw [last.eq_append]
  rw [List.getElem?_append_right (by simpa using h), List.length_replicate, List.getElem?_map]

/-- Values for the first places and then, in turn, for the last ones that are left. -/
theorem Trailing.getElem?_append_drop (last : Trailing os) {vs : List α}
    (enough : os.length - os.reduceOption.length ≤ vs.length) {i : Nat}
    (behind : vs.length ≤ i) :
    os[i]? = (vs ++ os.reduceOption.drop
      (vs.length - (os.length - os.reduceOption.length)))[i]?.map some := by
  have place : vs.length - (os.length - os.reduceOption.length) + (i - vs.length) =
      i - (os.length - os.reduceOption.length) := by omega
  rw [last.getElem?_eq (enough.trans behind), List.getElem?_append_right behind,
    List.getElem?_drop, place]

theorem Trailing.isSome_iff (last : Trailing os) {i : Nat} (inside : i < os.length) :
    os[i].isSome = true ↔ os.length - os.reduceOption.length ≤ i := by
  have found : os[i]? = some os[i] := List.getElem?_eq_getElem inside
  rcases Nat.lt_or_ge i (os.length - os.reduceOption.length) with before | behind
  · have absent : os[i]? = some none := by
      conv_lhs => rw [last.eq_append]
      rw [List.getElem?_append_left (by rwa [List.length_replicate]),
        List.getElem?_replicate_of_lt before]
    rw [Option.some.inj (found.symm.trans absent)]
    exact iff_of_false Bool.false_ne_true (Nat.not_le_of_lt before)
  · rw [last.getElem?_eq behind] at found
    obtain ⟨v, -, hv⟩ := Option.map_eq_some_iff.1 found
    rw [← hv]
    exact iff_of_true rfl behind

end

/-- As many parameters as have no default. -/
def FunctionHead.required (h : FunctionHead) : Nat :=
  h.params.length - h.params.countP (·.default.isSome)

/-- Of parameters in good order the last ones have defaults, as many as there are. -/
theorem WellOrdered.isSome_default_iff {ps : List Param} (ordered : WellOrdered ps) {i : Nat}
    (inside : i < ps.length) :
    ps[i].default.isSome = true ↔ ps.length - ps.countP (·.default.isSome) ≤ i := by
  have last : Trailing (ps.map (·.default)) :=
    List.pairwise_map.2 ordered.defaults
  have count : (ps.map (·.default)).reduceOption.length = ps.countP (·.default.isSome) :=
    List.length_filterMap_eq_countP.trans List.countP_map
  have place := last.isSome_iff (i := i) (by rwa [List.length_map])
  simp only [List.getElem_map, List.length_map, count] at place
  exact place

/-! ### The definition of a function -/

section

variable {σ : Type}

/-- The default of each parameter that has one has been evaluated, one after the other; these are
the values, each in the place of its parameter. -/
inductive Defaulted (c : Calls σ) : List Param → List (Option Value) → Machine σ → Machine σ → Prop
  | nil (m : Machine σ) : Defaulted c [] [] m m
  | without {p : Param} {ps : List Param} {own : List (Option Value)} {m m' : Machine σ} :
      p.default = none → Defaulted c ps own m m' → Defaulted c (p :: ps) (none :: own) m m'
  | default {p : Param} {ps : List Param} {e : Expr} {v : Value} {own : List (Option Value)}
      {m m₁ m' : Machine σ} : p.default = some e → c.eval e m = .done v m₁ →
      Defaulted c ps own m₁ m' → Defaulted c (p :: ps) (some v :: own) m m'

variable {c : Calls σ} {ps : List Param} {own : List (Option Value)} {m m' : Machine σ}

theorem Defaulted.map_isSome (h : Defaulted c ps own m m') :
    own.map Option.isSome = ps.map (·.default.isSome) := by
  induction h with
  | nil => rfl
  | without hp _ ih => simp [hp, ih]
  | default hp _ _ ih => simp [hp, ih]

theorem Defaulted.length_eq (h : Defaulted c ps own m m') : own.length = ps.length := by
  simpa using congrArg List.length h.map_isSome

/-- A function keeps as many values as parameters have defaults. -/
theorem Defaulted.length_reduceOption (h : Defaulted c ps own m m') :
    own.reduceOption.length = ps.countP (·.default.isSome) := by
  have same := congrArg (List.countP id) h.map_isSome
  rw [List.countP_map, List.countP_map] at same
  exact List.length_filterMap_eq_countP.trans same

theorem Defaulted.last (h : Defaulted c ps own m m') (ordered : WellOrdered ps) :
    Trailing own := by
  let later (a b : Bool) : Prop := a = true → b = true
  have flags : (ps.map (·.default.isSome)).Pairwise later :=
    List.pairwise_map.2 ordered.defaults
  rw [← h.map_isSome] at flags
  exact List.pairwise_map.1 flags

/-- What a definition keeps are the values of the defaults, in the order of the parameters. -/
theorem evalAll_defaults_iff {vs : List Value} :
    evalAll c.value (ps.filterMap (·.default)) m = .done vs m' ↔
      ∃ own, Defaulted c ps own m m' ∧ own.reduceOption = vs := by
  induction ps generalizing m vs with
  | nil =>
    constructor
    · intro h
      cases h
      exact ⟨[], .nil _, rfl⟩
    · rintro ⟨own, defaulted, rfl⟩
      cases defaulted
      rfl
  | cons p ps ih =>
    cases hp : p.default with
    | none =>
      rw [List.filterMap_cons_none hp, ih]
      constructor
      · rintro ⟨own, rest, rfl⟩
        exact ⟨none :: own, .without hp rest, rfl⟩
      · rintro ⟨own, defaulted, rfl⟩
        cases defaulted with
        | without _ rest => exact ⟨_, rest, rfl⟩
        | default present => cases hp.symm.trans present
    | some e =>
      rw [List.filterMap_cons_some hp]
      have unfolded : evalAll c.value (e :: ps.filterMap (·.default)) m = (do
          let v ← c.eval e
          let vs ← evalAll c.value (ps.filterMap (·.default))
          return v :: vs : Action σ (List Value)) m := rfl
      rw [unfolded, bind_eq_done]
      constructor
      · rintro ⟨v, m₁, evaluated, rest⟩
        obtain ⟨vs, m₂, others, ended⟩ := bind_eq_done.1 rest
        cases ended
        obtain ⟨own, defaulted, rfl⟩ := ih.1 others
        exact ⟨some v :: own, .default hp evaluated defaulted, rfl⟩
      · rintro ⟨own, defaulted, rfl⟩
        cases defaulted with
        | without absent => cases hp.symm.trans absent
        | default present evaluated rest =>
          cases hp.symm.trans present
          exact ⟨_, _, evaluated, bind_eq_done.2 ⟨_, _, ih.2 ⟨_, rest, rfl⟩, rfl⟩⟩

variable {head : FunctionHead} {body : List Stmt} {ds : List Value} {r : FunctionRef}

/-- The definition has made a function: its decorators have been evaluated and then the defaults of
its parameters, and the function has been put into the store. -/
inductive MakesFunction (c : Calls σ) (head : FunctionHead) (body : List Stmt) (m : Machine σ)
    (ds : List Value) (own : List (Option Value)) : FunctionRef → Machine σ → Prop
  | intro {m₁ m₂ : Machine σ} : evalAll c.value head.decorators m = .done ds m₁ →
      Defaulted c head.params own m₁ m₂ →
      MakesFunction c head body m ds own ⟨m₂.store.functions.size⟩
        { m₂ with
          store := (Store.newFunction ⟨⟨head, body⟩, own.reduceOption,
            m₂.store.closure? (m₂.stack.back?.getD .top).kind⟩ m₂.store).2 }

theorem MakesFunction.function? (makes : MakesFunction c head body m ds own r m') :
    ∃ scope, m'.store.function? r = some ⟨⟨head, body⟩, own.reduceOption, scope⟩ := by
  cases makes
  exact ⟨_, Array.getElem?_push_size⟩

theorem MakesFunction.defaulted (makes : MakesFunction c head body m ds own r m') :
    ∃ m₁ m₂, Defaulted c head.params own m₁ m₂ := by
  cases makes with
  | intro _ defaulted => exact ⟨_, _, defaulted⟩

/-- Once a definition has made a function it has only to decorate it and to bind the name. -/
theorem MakesFunction.perform_eq (env : Setting σ)
    (makes : MakesFunction c head body m ds own r m') :
    env.perform c (.function head body) m =
      (do store head.name (← decorate c.value head.pos ds.reverse (.function r))) m' := by
  cases makes with
  | intro decorated defaulted =>
    have kept := evalAll_defaults_iff.2 ⟨own, defaulted, rfl⟩
    change defineFunction c head body m = _
    unfold defineFunction
    rw [bind_apply, decorated]
    dsimp only
    rw [bind_apply, kept]
    rfl

/-- A definition that ends normally has made a function. -/
theorem makesFunction_of_perform (env : Setting σ)
    (ended : env.perform c (.function head body) m = .done () m') :
    ∃ ds own r m₁, MakesFunction c head body m ds own r m₁ := by
  change defineFunction c head body m = _ at ended
  obtain ⟨ds, m₁, decorated, rest⟩ := bind_eq_done.1 ended
  obtain ⟨vs, m₂, kept, -⟩ := bind_eq_done.1 rest
  obtain ⟨own, defaulted, -⟩ := evalAll_defaults_iff.1 kept
  exact ⟨ds, own, _, _, .intro decorated defaulted⟩

end

/-! ### The scope of a call -/

namespace Bindings

variable {names : List String} {vs : List Value} {x : String}

theorem get?_of_not_mem {b : Bindings} (h : x ∉ b.map Prod.fst) : b.get? x = none := by
  induction b with
  | nil => rfl
  | cons p b ih =>
    rw [List.map_cons, List.mem_cons, not_or] at h
    rw [get?, if_neg (Ne.symm h.1)]
    exact ih h.2

/-- Of names that are all different each is bound to the value in its place. -/
theorem get?_zip (distinct : names.Nodup) {i : Nat} {v : Value} (hx : names[i]? = some x)
    (hv : vs[i]? = some v) : get? x (names.zip vs) = some v := by
  induction names generalizing i vs with
  | nil => cases hx
  | cons n names ih =>
    obtain ⟨fresh, distinct⟩ := List.nodup_cons.1 distinct
    cases vs with
    | nil => cases hv
    | cons w vs =>
      rw [List.zip_cons_cons, get?]
      cases i with
      | zero =>
        cases hx
        cases hv
        exact if_pos rfl
      | succ i =>
        have other : n ≠ x := by
          rintro rfl
          exact fresh (List.mem_of_getElem? hx)
        rw [if_neg other]
        exact ih distinct hx hv

end Bindings

namespace Store

variable {s : Store} {r q : ScopeRef}

/-- Binds names in a scope, one after the other. -/
def setAll (s : Store) (r : ScopeRef) (vars : Bindings) : Store :=
  vars.foldl (fun s b => s.set r b.1 b.2) s

theorem setAll_eq (s : Store) (r : ScopeRef) (vars : Bindings) :
    s.setAll r vars = { s with scopes := (s.setAll r vars).scopes } ∧
      (s.setAll r vars).scopes.size = s.scopes.size := by
  induction vars generalizing s with
  | nil => exact ⟨rfl, rfl⟩
  | cons b vars ih =>
    obtain ⟨rest, size⟩ := ih (s.set r b.1 b.2)
    exact ⟨rest, size.trans Array.size_modify⟩

theorem get?_setAll_of_ne (other : q ≠ r) (vars : Bindings) (x : String) :
    (s.setAll r vars).get? q x = s.get? q x := by
  induction vars generalizing s with
  | nil => rfl
  | cons b vars ih => exact ih.trans (get?_set_of_ne other b.1 x b.2)

theorem get?_setAll_self (inside : r.index < s.scopes.size) {vars : Bindings}
    (distinct : (vars.map Prod.fst).Nodup) (x : String) :
    (s.setAll r vars).get? r x = (vars.get? x).or (s.get? r x) := by
  induction vars generalizing s with
  | nil => rfl
  | cons b vars ih =>
    obtain ⟨n, v⟩ := b
    obtain ⟨fresh, distinct⟩ := List.nodup_cons.1 distinct
    have bound := ih (s := s.set r n v) (by rwa [set, Array.size_modify]) distinct
    rw [get?_set_self inside] at bound
    refine bound.trans ?_
    rw [Bindings.get?]
    by_cases same : n = x
    · subst same
      rw [if_pos rfl, if_pos rfl, Bindings.get?_of_not_mem fresh]
      rfl
    · rw [if_neg same, if_neg same]

end Store

section

variable {closure : Option ScopeRef} {vars : Bindings} {s : Store}

theorem callScope_eq (closure : Option ScopeRef) (vars : Bindings) (s : Store) :
    callScope closure vars s =
      (⟨s.scopes.size⟩, (Store.newScope closure s).2.setAll ⟨s.scopes.size⟩ vars) := rfl

theorem get?_callScope (distinct : (vars.map Prod.fst).Nodup) (x : String) :
    (callScope closure vars s).2.get? ⟨s.scopes.size⟩ x = vars.get? x := by
  have inside : s.scopes.size < (Store.newScope closure s).2.scopes.size := by
    simp [Store.newScope]
  have unbound : s.get? ⟨s.scopes.size⟩ x = none := Store.get?_of_size_le (Nat.le_refl _)
  rw [callScope_eq, Store.get?_setAll_self (r := ⟨s.scopes.size⟩) inside distinct,
    Store.get?_newScope, unbound, Option.or_none]

theorem get?_callScope_of_ne {q : ScopeRef} (other : q ≠ ⟨s.scopes.size⟩) (x : String) :
    (callScope closure vars s).2.get? q x = s.get? q x := by
  rw [callScope_eq, Store.get?_setAll_of_ne other, Store.get?_newScope]

end

section

variable {f : Function} {own : List (Option Value)} {args defaults : List Value}

theorem map_fst_boundArguments (fewer : defaults.length ≤ f.head.params.length)
    (enough : f.head.params.length - defaults.length ≤ args.length) :
    (boundArguments f args defaults).map Prod.fst = f.head.params.map (·.name) := by
  apply List.map_fst_zip
  simp only [List.length_map, List.length_append, List.length_drop]
  omega

/-- A parameter with an argument is bound to it. -/
theorem get?_boundArguments_given (distinct : (f.head.params.map (·.name)).Nodup) {i : Nat}
    (param : i < f.head.params.length) (arg : i < args.length) :
    Bindings.get? f.head.params[i].name (boundArguments f args defaults) = some args[i] := by
  apply Bindings.get?_zip (i := i) distinct
  · rw [List.getElem?_map, List.getElem?_eq_getElem param]
    rfl
  · rw [List.getElem?_append_left arg, List.getElem?_eq_getElem arg]

/-- A parameter without an argument is bound to the value of its own default. -/
theorem get?_boundArguments_left (distinct : (f.head.params.map (·.name)).Nodup)
    (aligned : own.length = f.head.params.length)
    (last : Trailing own)
    (enough : f.head.params.length - own.reduceOption.length ≤ args.length) {i : Nat}
    (param : i < f.head.params.length) (behind : args.length ≤ i) :
    ∃ v, own[i]? = some (some v) ∧
      Bindings.get? f.head.params[i].name (boundArguments f args own.reduceOption) = some v := by
  rw [← aligned] at enough
  have value := last.getElem?_append_drop enough behind
  rw [aligned] at value
  have present : own[i]? = some own[i] := List.getElem?_eq_getElem (aligned ▸ param)
  obtain ⟨v, hv, same⟩ := Option.map_eq_some_iff.1 (value.symm.trans present)
  refine ⟨v, present.trans (congrArg some same.symm), ?_⟩
  apply Bindings.get?_zip (i := i) distinct
  · rw [List.getElem?_map, List.getElem?_eq_getElem param]
    rfl
  · exact hv

end

/-- The store when the body of a function begins to run. The parameters are bound in a scope that no
other frame has: to the arguments, and those left over to the values of their own defaults. Nothing
else is bound in it, and nothing else is changed. -/
structure Entered (ps : List Param) (own : List (Option Value)) (args : List Value) (s : Store)
    (locals : ScopeRef) (s' : Store) : Prop where
  fresh : locals = ⟨s.scopes.size⟩
  given (i : Nat) (param : i < ps.length) (arg : i < args.length) :
    s'.get? locals ps[i].name = some args[i]
  left (i : Nat) (param : i < ps.length) : args.length ≤ i →
    ∃ v, own[i]? = some (some v) ∧ s'.get? locals ps[i].name = some v
  nothing (x : String) : x ∉ ps.map (·.name) → s'.get? locals x = none
  others (q : ScopeRef) (x : String) : q ≠ locals → s'.get? q x = s.get? q x
  rest : s' = { s with scopes := s'.scopes }

theorem entered_callScope {f : Function} {own : List (Option Value)} {args : List Value}
    (distinct : (f.head.params.map (·.name)).Nodup) (aligned : own.length = f.head.params.length)
    (last : Trailing own)
    (enough : f.head.params.length - own.reduceOption.length ≤ args.length)
    (closure : Option ScopeRef) (s : Store) :
    Entered f.head.params own args s ⟨s.scopes.size⟩
      (callScope closure (boundArguments f args own.reduceOption) s).2 := by
  have keys : (boundArguments f args own.reduceOption).map Prod.fst = f.head.params.map (·.name) :=
    map_fst_boundArguments (aligned ▸ List.reduceOption_length_le own) enough
  have apart : ((boundArguments f args own.reduceOption).map Prod.fst).Nodup := by
    rwa [keys]
  refine ⟨rfl, fun i param arg => ?_, fun i param behind => ?_, fun x absent => ?_,
    fun q x other => ?_, ?_⟩
  · rw [get?_callScope apart]
    exact get?_boundArguments_given distinct param arg
  · rw [get?_callScope apart]
    exact get?_boundArguments_left distinct aligned last enough param behind
  · rw [get?_callScope apart]
    exact Bindings.get?_of_not_mem (by rwa [keys])
  · exact get?_callScope_of_ne other x
  · exact ((Store.newScope closure s).2.setAll_eq _ _).1

/-! ### Calls -/

section

variable {f : Function} {defaults given : Nat}

theorem checkArity_eq_ok_iff :
    checkArity f defaults given = .ok () ↔
      f.head.params.length - defaults ≤ given ∧ given ≤ f.head.params.length := by
  unfold checkArity
  dsimp only
  by_cases many : f.head.params.length < given
  · rw [if_pos many]
    exact iff_of_false nofun fun h => absurd h.2 (Nat.not_le_of_lt many)
  · rw [if_neg many]
    by_cases few : given < f.head.params.length - defaults
    · rw [if_pos few]
      exact iff_of_false nofun fun h => absurd h.1 (Nat.not_le_of_lt few)
    · rw [if_neg few]
      exact iff_of_true rfl ⟨Nat.le_of_not_lt few, Nat.le_of_not_lt many⟩

theorem kind_of_checkArity {fault : Fault} (h : checkArity f defaults given = .error fault)
    (p : Position) : (Failure.ofFault fault p).kind? = some "TypeError" := by
  unfold checkArity at h
  dsimp only at h
  split at h
  · cases h
    rfl
  · split at h
    · cases h
      rfl
    · cases h

end

namespace Setting

section

variable {σ : Type} (env : Setting σ) {m : Machine σ} {r : FunctionRef} {f : Closure}

/-- A call of a function that the store has checks the number of the arguments before anything
else. -/
theorem evaluate_call (found : m.store.function? r = some f) (k : Nat) (args : List Value)
    (p : Position) :
    let entry := callScope f.scope (boundArguments f.function args f.defaults) m.store
    env.evaluate (k + 1) (.call (.function r) args p) m =
      match checkArity f.function f.defaults.length args.length with
      | .error fault => .failed (.ofFault fault p) m
      | .ok () =>
        backAt p (env.inFrame (.ofFunction f.function entry.1)
          ((env.calls k).block f.function.runBody)) { m with store := entry.2 } := by
  intro entry
  have opened : env.evaluate (k + 1) (.call (.function r) args p) m =
      env.callFunction r args p (fun f => (env.calls k).block f.runBody) m := rfl
  rw [opened, callFunction, bind_apply, Action.read, Action.observe, found]
  dsimp only
  rw [bind_apply, Action.lift, Action.readAt, Action.observe]
  cases checkArity f.function f.defaults.length args.length with
  | error fault => rfl
  | ok u => rfl

end

section

variable {σ : Type}

/-- What comes of a call of a function whose parameters had such defaults. With too few or too many
arguments it fails before anything is done; otherwise it runs the body of the function in a new
frame, with the parameters bound. -/
structure Invoked (env : Setting σ) (k : Nat) (f : Function) (own : List (Option Value))
    (args : List Value) (p : Position) (m : Machine σ) (ending : Ending σ Value) : Prop where
  refused : ¬(f.head.required ≤ args.length ∧ args.length ≤ f.head.params.length) →
    ∃ e, e.kind? = some "TypeError" ∧ ending = .failed e m
  entered : f.head.required ≤ args.length → args.length ≤ f.head.params.length →
    ∃ locals s, Entered f.head.params own args m.store locals s ∧
      ending = backAt p (env.inFrame (.ofFunction f locals) ((env.calls k).block f.runBody))
        { m with store := s }

variable {c : Calls σ} {f : Function} {own : List (Option Value)} {scope : Option ScopeRef}
  {m b b' : Machine σ} {r : FunctionRef}

theorem invoked_of_function? (ordered : WellOrdered f.head.params)
    (defaulted : Defaulted c f.head.params own b b')
    (found : m.store.function? r = some ⟨f, own.reduceOption, scope⟩) (env : Setting σ) (k : Nat)
    (args : List Value) (p : Position) :
    Invoked env k f own args p m (env.evaluate (k + 1) (.call (.function r) args p) m) := by
  have called := env.evaluate_call found k args p
  have count : own.reduceOption.length = f.head.params.countP (·.default.isSome) :=
    defaulted.length_reduceOption
  have accepts : checkArity f own.reduceOption.length args.length = .ok () ↔
      f.head.required ≤ args.length ∧ args.length ≤ f.head.params.length := by
    rw [count]
    exact checkArity_eq_ok_iff
  constructor
  · intro refused
    cases arity : checkArity f own.reduceOption.length args.length with
    | error fault =>
      simp only [arity] at called
      exact ⟨_, kind_of_checkArity arity p, called⟩
    | ok u => exact absurd (accepts.1 arity) refused
  · intro enough fits
    simp only [accepts.2 ⟨enough, fits⟩] at called
    refine ⟨_, _, ?_, called⟩
    rw [FunctionHead.required, ← count] at enough
    exact entered_callScope ordered.distinct defaulted.length_eq (defaulted.last ordered) enough
      scope m.store

end

section

variable {source : String} {p : Program} {head : FunctionHead} {body : List Stmt}

/-- Of the parameters in a parsed definition the last ones have defaults. Each execution of the
definition evaluates them in turn. From then on, whatever is run, a call of the function that is
made takes as many arguments as there are parameters, or fewer by at most the number of defaults;
otherwise it fails before anything is done. Its frame begins with the parameters bound to the
arguments, and those left over to the values that their own defaults had in that execution. -/
theorem parameters_bound (parsed : Program.ofSource source = .ok p)
    (within : Node.stmt (.function head body) ∈ (Node.script p.script).walk) :
    ((head.params.map (·.name)).Nodup ∧ ∀ i (param : i < head.params.length),
      head.params[i].default.isSome = true ↔ head.required ≤ i) ∧
    ∀ {σ : Type} (env : Setting σ) (n : Nat),
      (∀ m m', env.perform (env.calls n) (.function head body) m = .done () m' →
        ∃ ds own r m₁, MakesFunction (env.calls n) head body m ds own r m₁) ∧
      (∀ m ds own r m₁, MakesFunction (env.calls n) head body m ds own r m₁ →
        env.perform (env.calls n) (.function head body) m = (do
          let v ← decorate (env.calls n).value head.pos ds.reverse (.function r)
          store head.name v) m₁ ∧
        ∀ (env' : Setting σ) (m₂ : Machine σ), m₁.store.FunctionsLast m₂.store → ∀ k args q,
          Invoked env' k ⟨head, body⟩ own args q m₂
            (env'.evaluate (k + 1) (.call (.function r) args q) m₂)) ∧
      (∀ t, (env.evaluate n t).Lasting) ∧ (∀ t, (env.place n t).Lasting) ∧
      (∀ t, (env.execute n t).Lasting) ∧ (∀ script, (env.runScript n script).Lasting) ∧
      ∀ name args, (env.callGlobal n name args).Lasting := by
  have formed := formed_of_parse (Lineage.parse_of_source parsed)
  have ordered : WellOrdered head.params := (formed _ within).shaped.2.1
  refine ⟨⟨ordered.distinct, fun i param => ordered.isSome_default_iff param⟩, fun {σ} env n =>
    ⟨fun m m' ended => makesFunction_of_perform env ended,
      fun m ds own r m₁ makes => ⟨makes.perform_eq env, fun env' m₂ lasts k args q => ?_⟩,
      env.lasting_evaluate n, env.lasting_place n, env.lasting_execute n, env.lasting_runScript n,
      env.lasting_callGlobal n⟩⟩
  obtain ⟨scope, made⟩ := makes.function?
  obtain ⟨b, b', defaulted⟩ := makes.defaulted
  exact invoked_of_function? (f := ⟨head, body⟩) ordered defaulted (lasts r _ made) env' k args q

section

set_option maxRecDepth 1000

/-- A function of two parameters, the second with a default. -/
theorem parameters_bound_one_left :
    let head : FunctionHead := ⟨"f", false, [⟨"a", none, none, ⟨1, 7⟩⟩,
      ⟨"b", none, some (.const (.int 1) ⟨1, 12⟩), ⟨1, 10⟩⟩], [], none, 1, ⟨["a", "b"], [], []⟩,
      ⟨1, 1⟩, 2⟩
    let body : List Stmt := [.pass ⟨2, 5⟩]
    let p : Program := ⟨"def f(a, b=1):\n    pass\n", ⟨[.function head body]⟩⟩
    let env : Setting Unit := ⟨.default, .steady, none⟩
    let own : List (Option Value) := [none, some (.int 1)]
    let called (args : List Value) := env.evaluate 9 (.call (.function ⟨0⟩) args .start)
    Program.ofSource p.source = .ok p ∧
      Node.stmt (.function head body) ∈ (Node.script p.script).walk ∧
      ∃ m, MakesFunction (env.calls 1) head body (.initial ()) [] own ⟨0⟩ m ∧
        (∃ f, f.kind? = some "TypeError" ∧ called [] m = .failed f m) ∧
        ∃ locals s, Entered head.params own [.int 7] m.store locals s ∧
          s.get? locals "a" = some (.int 7) ∧ s.get? locals "b" = some (.int 1) ∧
          called [.int 7] m = backAt .start (env.inFrame (.ofFunction ⟨head, body⟩ locals)
            ((env.calls 8).block body)) { m with store := s } := by
  intro head body p env own called
  have parsed : Program.ofSource p.source = .ok p := by cbv
  have within : Node.stmt (.function head body) ∈ (Node.script p.script).walk := by
    rw [Node.walk_eq]
    refine List.mem_cons_of_mem _ (List.mem_flatMap.2 ⟨_, List.mem_cons_self, ?_⟩)
    rw [Node.walk_eq]
    exact List.mem_cons_self
  obtain ⟨-, calls⟩ := parameters_bound parsed within
  obtain ⟨-, bound, -⟩ := calls env 1
  have decorated : evalAll (env.calls 1).value head.decorators (.initial ()) =
      .done [] (.initial ()) := rfl
  have defaulted : Defaulted (env.calls 1) head.params own (.initial ()) (.initial ()) :=
    .without rfl (.default rfl rfl (.nil _))
  have made : MakesFunction (env.calls 1) head body (.initial ()) [] own _ _ :=
    .intro decorated defaulted
  obtain ⟨-, answers⟩ := bound _ _ _ _ _ made
  refine ⟨parsed, within, _, made, ?_, ?_⟩
  · exact (answers env _ (.refl _) 8 [] .start).refused (by decide)
  · obtain ⟨locals, s, entered, called⟩ :=
      (answers env _ (.refl _) 8 [.int 7] .start).entered (by decide) (by decide)
    obtain ⟨v, value, left⟩ := entered.left 1 (by decide) (by decide)
    cases value
    exact ⟨locals, s, entered, entered.given 0 (by decide) (by decide), left, called⟩

end

end

end Setting

end Footprint
