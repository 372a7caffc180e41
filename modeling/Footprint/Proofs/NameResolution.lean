import Footprint.Proofs.ScopeChains

set_option autoImplicit false

/-!
How names are resolved that are neither local to a function nor declared global there. Which
activations may be meant is a matter of the text: those of the functions around, innermost first,
that may bind the name at all. Which one of them is meant is decided at the moment of the use, by
what is bound.
-/

namespace Footprint

/-! ### Chains of activations -/

namespace Store

variable {store : Store} {n : String} {f g : Function} {r q : ScopeRef}
  {chain around : List (Function × ScopeRef)}

/-- The activation is the innermost one of the chain that has the name bound. -/
def Decides (store : Store) (n : String) (chain : List (Function × ScopeRef)) (g : Function)
    (q : ScopeRef) : Prop :=
  ∃ inner outer, chain = inner ++ (g, q) :: outer ∧ (∀ a ∈ inner, store.get? a.2 n = none) ∧
    (store.get? q n).isSome

/-- No activation of the chain has the name bound. -/
def Unbound (store : Store) (n : String) (chain : List (Function × ScopeRef)) : Prop :=
  ∀ a ∈ chain, store.get? a.2 n = none

theorem find?_of_unbound (h : store.Unbound n chain) :
    (chain.map Prod.snd).find? (fun a => (store.get? a n).isSome) = none := by
  rw [List.find?_eq_none]
  intro a ha
  obtain ⟨b, hb, rfl⟩ := List.mem_map.1 ha
  simp [h b hb]

theorem findSome?_of_unbound (h : store.Unbound n chain) :
    (chain.map Prod.snd).findSome? (fun a => store.get? a n) = none := by
  rw [List.findSome?_eq_none_iff]
  intro a ha
  obtain ⟨b, hb, rfl⟩ := List.mem_map.1 ha
  exact h b hb

theorem find?_of_decides (h : store.Decides n chain g q) :
    (chain.map Prod.snd).find? (fun a => (store.get? a n).isSome) = some q := by
  obtain ⟨inner, outer, rfl, unbound, bound⟩ := h
  rw [List.map_append, List.find?_append, find?_of_unbound unbound, Option.none_or]
  exact List.find?_cons_of_pos bound

theorem findSome?_of_decides (h : store.Decides n chain g q) :
    (chain.map Prod.snd).findSome? (fun a => store.get? a n) = store.get? q n := by
  obtain ⟨inner, outer, rfl, unbound, bound⟩ := h
  obtain ⟨v, hv⟩ := Option.isSome_iff_exists.1 bound
  rw [List.map_append, List.findSome?_append, findSome?_of_unbound unbound, Option.none_or, hv]
  simp [hv]

/-- What becomes of a name in an activation of a function with such activations around it. -/
structure Resolution (store : Store) (f : Function) (r : ScopeRef) (n : String)
    (around : List (Function × ScopeRef)) : Prop where
  read {g : Function} {q : ScopeRef} {v : Value} : store.Decides n ((f, r) :: around) g q →
    store.get? q n = some v → store.resolve (.function f r) n = .ok v
  unread : store.Unbound n ((f, r) :: around) →
    store.resolve (.function f r) n = store.globalValue n
  stored {g : Function} {q : ScopeRef} : n ∈ f.head.bound.nonlocals → store.Decides n around g q →
    store.bindingScope (.function f r) n = .ok q
  nearest {g : Function} {q : ScopeRef} {outer : List (Function × ScopeRef)} :
    n ∈ f.head.bound.nonlocals → store.Unbound n around → around = (g, q) :: outer →
    store.bindingScope (.function f r) n = .ok q
  nowhere : n ∈ f.head.bound.nonlocals → around = [] →
    store.bindingScope (.function f r) n = .error (.noNonlocal n)

/-- Names are resolved along the chain of the scopes. -/
theorem resolution (here : n ∉ f.head.bound.locals) (inside : n ∉ f.head.bound.globals)
    (older : ∀ r p, store.parent r = some p → p.index < r.index)
    (chain : store.ancestors r = around.map Prod.snd) : store.Resolution f r n around := by
  have looked : store.lookup? r n =
      (((f, r) :: around).map Prod.snd).findSome? fun a => store.get? a n := by
    rw [List.map_cons, ← chain]
    rfl
  have owner : store.owner? r n =
      (around.map Prod.snd).find? fun a => (store.get? a n).isSome := by
    rw [← chain]
    rfl
  have parent : store.parent r = (around.map Prod.snd).head? := by
    rw [store.parent_eq_head? older, chain]
  have binds (declared : n ∈ f.head.bound.nonlocals) :
      store.bindingScope (.function f r) n = store.nonlocalScope r n := by
    simp [bindingScope, inside, declared]
  constructor
  · intro g q v decides hv
    have found : store.lookup? r n = some v := by rw [looked, findSome?_of_decides decides, hv]
    simp [resolve, here, inside, found]
  · intro unbound
    have missing : store.lookup? r n = none := by rw [looked, findSome?_of_unbound unbound]
    simp [resolve, here, inside, missing]
  · intro g q declared decides
    rw [binds declared, nonlocalScope, owner, find?_of_decides decides]
  · intro g q outer declared unbound first
    rw [binds declared, nonlocalScope, owner, find?_of_unbound unbound, parent, first]
    rfl
  · intro declared none
    rw [binds declared, nonlocalScope, owner, parent, none]
    rfl

end Store

/-! ### Activations of a script -/

/-- Around an activation stand activations of the functions around it in the text. Only such ones
bind a name as may, and names are resolved by what they have bound at the moment. -/
def Script.Resolves (s : Script) (film : List Scene) (store : Store) : Prop :=
  ∀ f r n, Activated film f r → n ∉ f.head.bound.locals → n ∉ f.head.bound.globals →
    ∃ around : List (Function × ScopeRef), s.Nests (.function f) (around.map Prod.fst) ∧
      store.ancestors r = around.map Prod.snd ∧ (∀ a ∈ around, Activated film a.1 a.2) ∧
      (∀ a ∈ (f, r) :: around, (store.get? a.2 n).isSome → s.MayBind (.function a.1) n) ∧
      store.Resolution f r n around

theorem Script.Mirrors.resolves {s : Script} {film : List Scene} {store : Store}
    (mirrors : s.Mirrors film store) (own : s.BindsOwn film store) : s.Resolves film store := by
  intro f r n shown here inside
  obtain ⟨fs, nests, scopes⟩ := mirrors.activations shown
  obtain ⟨same, activated⟩ := List.forall₂_iff_zip.1 scopes
  have functions : (fs.zip (store.ancestors r)).map Prod.fst = fs :=
    List.map_fst_zip (Nat.le_of_eq same)
  have chain : (fs.zip (store.ancestors r)).map Prod.snd = store.ancestors r :=
    List.map_snd_zip (Nat.le_of_eq same.symm)
  have around : ∀ a ∈ fs.zip (store.ancestors r), Activated film a.1 a.2 :=
    fun a ha => activated ha
  refine ⟨fs.zip (store.ancestors r), functions.symm ▸ nests, chain.symm, around,
    fun a ha bound => ?_, Store.resolution here inside mirrors.older chain.symm⟩
  obtain ⟨v, hv⟩ := Option.isSome_iff_exists.1 bound
  have made : Activated film a.1 a.2 := (List.mem_cons.1 ha).elim (fun own => own ▸ shown) (around a)
  exact own a.1 a.2 n v made hv

namespace Interpreter

variable {ω : Type} {source : String} {p : Program} {limits : Limits} {i : Interpreter ω}
  {given : List Value} {film : List Scene}

/-- A name that is neither local to a function nor declared global there is that of the innermost
activation that has it bound when it is read, of the function itself or of those around it in the
text. Only if none has, it is a global name or a built-in one. A nonlocal name is bound in the
innermost activation around the function that has it bound, or else in the one right around. An
activation can have such names bound only as the text lets it. -/
theorem names_resolved (parsed : Program.ofSource source = .ok p)
    (h : Filmed p limits i given film) : i.Upholds given film p.script.Resolves :=
  Lineage.upholds parsed h fun _ _ mirrors own => mirrors.resolves own

end Interpreter

/-! ### Not by the text alone -/

/-- Names would be resolved so by the text alone: that activation is meant that belongs to the
innermost function around which has the name among its locals, whether it has it bound or not. -/
structure Script.ResolvesByText (s : Script) (film : List Scene) (store : Store) : Prop where
  listed {f g : Function} {r q : ScopeRef} {n : String} {inner outer : List Function} :
    Activated film f r → n ∉ f.head.bound.locals → n ∉ f.head.bound.globals →
    s.Nests (.function f) (inner ++ g :: outer) → (∀ h ∈ inner, n ∉ h.head.bound.locals) →
    n ∈ g.head.bound.locals → (store.ancestors r)[inner.length]? = some q →
    store.resolve (.function f r) n =
        (match store.get? q n with
        | some v => .ok v
        | none => .error (.undefinedName n)) ∧
      (n ∈ f.head.bound.nonlocals → store.bindingScope (.function f r) n = .ok q)
  unlisted {f : Function} {r : ScopeRef} {n : String} {fs : List Function} :
    Activated film f r → n ∉ f.head.bound.locals → n ∉ f.head.bound.globals →
    s.Nests (.function f) fs → (∀ h ∈ fs, n ∉ h.head.bound.locals) →
    store.resolve (.function f r) n = store.globalValue n

/-! A function that reads a name of the function around it, which binds it later. -/

namespace LateName

def inner : Function :=
  ⟨⟨"g", false, [], [], none, 2, ⟨[], [], []⟩, ⟨3, 2⟩, 4⟩, [.ret (some (.name "x" ⟨4, 10⟩)) ⟨4, 3⟩]⟩

def outer : Function :=
  ⟨⟨"f", false, [], [], none, 1, ⟨["g", "x"], [], []⟩, ⟨2, 1⟩, 6⟩,
    [.function inner.head inner.body, .expr (.call (.name "g" ⟨5, 2⟩) [] ⟨5, 2⟩) ⟨5, 2⟩,
      .assign [.name "x" ⟨6, 2⟩] (.const (.int 2) ⟨6, 6⟩) ⟨6, 2⟩]⟩

def program : Program :=
  ⟨"x = 1\ndef f():\n def g():\n  return x\n g()\n x = 2\nf()\n",
    ⟨[.assign [.name "x" ⟨1, 1⟩] (.const (.int 1) ⟨1, 5⟩) ⟨1, 1⟩, .function outer.head outer.body,
      .expr (.call (.name "f" ⟨7, 1⟩) [] ⟨7, 1⟩) ⟨7, 1⟩]⟩⟩

section

set_option maxRecDepth 1000

theorem parsed : Program.ofSource program.source = .ok program := by cbv

end

theorem nests : program.script.Nests (.function inner) [outer] := by
  have first : (Code.top program.script).Defines (.function outer) :=
    .function (.body (List.mem_cons_of_mem _ List.mem_cons_self))
  have second : (Code.function outer).Defines (.function inner) :=
    .function (.body List.mem_cons_self)
  exact .inner (.inner .top first) second

/-- The inner function finds the global value while the outer one has bound none. -/
theorem not_resolved_by_text :
    let i : Interpreter Unit := .new program .default .steady
    Program.ofSource program.source = .ok program ∧
      ¬ i.Upholds [] [] program.script.ResolvesByText := by
  intro i
  refine ⟨parsed, fun upheld => ?_⟩
  have filmed : Interpreter.Filmed program .default i [] [] := .new .steady
  have mirrors := ((Lineage.upholds parsed filmed fun _ _ mirrors _ => mirrors).run 12 ⟨#[], ()⟩).2
  have byText := (upheld.run 12 ⟨#[], ()⟩).2
  -- a scene in which the inner function finds a value though the outer one has bound none
  have found : (i.filmRun 12 ⟨#[], ()⟩ []).machine.monitor.notes.any (fun scene =>
      scene.stack.any fun frame => match frame.kind with
        | .function g r => g.head.code == 2 && (scene.store.ancestors r).any (fun q =>
            (scene.store.get? q "x").isNone &&
              (scene.store.resolve (.function g r) "x").toOption.isSome)
        | _ => false) = true := by decide +kernel
  obtain ⟨scene, hscene, frames⟩ := List.any_eq_true.1 found
  obtain ⟨frame, hframe, test⟩ := Array.any_eq_true'.1 frames
  obtain ⟨before, after, split⟩ := List.append_of_mem hscene
  have mirrors := mirrors before scene after split
  have byText := byText before scene after split
  have last : scene ∈ before ++ [scene] := List.mem_append_right _ List.mem_cons_self
  cases kind : frame.kind with
  | top | classBody r =>
    rw [kind] at test
    cases test
  | function g r =>
    rw [kind] at test
    simp only [Bool.and_eq_true, beq_iff_eq, List.any_eq_true] at test
    obtain ⟨code, q, hq, missing, value⟩ := test
    have shown : Activated (before ++ [scene]) g r := ⟨frame, ⟨scene, last, hframe⟩, kind⟩
    obtain ⟨fs, nests, scopes⟩ := mirrors.activations shown
    have numbered := (Lineage.isParsed_of_source parsed).numbered
    obtain ⟨⟩ := nests.contains.eq_of_id numbered LateName.nests.contains code
    obtain rfl := nests.unique numbered LateName.nests
    obtain ⟨o, -, chain⟩ : ∃ o, Activated (before ++ [scene]) outer o ∧
        scene.store.ancestors r = [o] := by
      simpa [List.forall₂_cons_left_iff] using scopes
    rw [chain, List.mem_singleton] at hq
    have around : program.script.Nests (.function inner) ([] ++ [outer]) := LateName.nests
    have unbound := byText.listed (n := "x") shown (by decide) (by decide) around nofun (by decide)
      (hq ▸ congrArg (·[0]?) chain)
    rw [unbound.1, Option.isNone_iff_eq_none.1 missing] at value
    cases value

/-- The inner function reads what the outer one has bound by the time of the use. -/
theorem reads_bound :
    let i : Interpreter Unit := .new program .default .steady
    let film := (i.filmRun 12 ⟨#[], ()⟩ []).machine.monitor.notes
    Program.ofSource program.source = .ok program ∧ ∃ r j ν,
      i.run 12 ⟨#[], ()⟩ = some (r, j, ν) ∧ ∀ q, Activated film inner q →
        ∃ o, Activated film outer o ∧ ∀ v, j.machine.store.get? q "x" = none →
          j.machine.store.get? o "x" = some v →
          j.machine.store.resolve (.function inner q) "x" = .ok v := by
  intro i film
  obtain ⟨⟨r, j, ν⟩, ended⟩ := Option.isSome_iff_exists.1
    (show (i.run 12 ⟨#[], ()⟩).isSome = true by decide +kernel)
  have filmed : Interpreter.Filmed program .default j [] film := .run (.new .steady) ended
  refine ⟨parsed, r, j, ν, ended, fun q shown => ?_⟩
  obtain ⟨around, text, -, activated, -, resolution⟩ :=
    (Interpreter.names_resolved parsed filmed).rest inner q "x" shown (by decide) (by decide)
  have functions := text.unique (Lineage.isParsed_of_source parsed).numbered nests
  obtain ⟨⟨g, o⟩, rfl, rfl⟩ : ∃ a, around = [a] ∧ a.1 = outer := by
    simpa [List.map_eq_cons_iff] using functions
  refine ⟨o, activated _ List.mem_cons_self, fun v unbound bound => ?_⟩
  exact resolution.read ⟨[(inner, q)], [], rfl, by simpa using unbound, by simp [bound]⟩ bound

end LateName

end Footprint
