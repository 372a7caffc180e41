import Footprint.Machine.Exec

set_option autoImplicit false

/-!
What changes of the store leave of its scopes, lists and functions, and the chains that scopes form.
-/

namespace Footprint

namespace Store

variable {s : Store} {r q : ScopeRef} {n m : String} {v u : Value}

theorem parent_set (s : Store) (r q : ScopeRef) (n : String) (v : Value) :
    (s.set r n v).parent q = s.parent q := by
  simp only [parent, set, Array.getElem?_modify]
  split
  · cases s.scopes[q.index]? <;> rfl
  · rfl

theorem parent_erase (s : Store) (r q : ScopeRef) (n : String) :
    (s.erase r n).parent q = s.parent q := by
  simp only [parent, erase, Array.getElem?_modify]
  split
  · cases s.scopes[q.index]? <;> rfl
  · rfl

theorem get?_of_set (h : (s.set r n v).get? q m = some u) :
    (q = r ∧ m = n ∧ u = v) ∨ s.get? q m = some u := by
  simp only [get?, vars, set, Array.getElem?_modify] at h ⊢
  split at h
  · next same =>
    cases hq : s.scopes[q.index]? with
    | none =>
      rw [hq] at h
      exact .inr h
    | some sc =>
      rw [hq] at h
      simp only [Option.map_some, Option.getD_some, Bindings.get?_set] at h ⊢
      split at h
      · next name =>
        cases h
        obtain ⟨i⟩ := r
        obtain ⟨j⟩ := q
        exact .inl ⟨congrArg ScopeRef.mk same.symm, name.symm, rfl⟩
      · exact .inr h
  · exact .inr h

theorem get?_set_self (inside : r.index < s.scopes.size) (n m : String) (v : Value) :
    (s.set r n v).get? r m = if n = m then some v else s.get? r m := by
  simp only [get?, vars, set, Array.getElem?_modify, if_true, Array.getElem?_eq_getElem inside,
    Option.map_some, Option.getD_some, Bindings.get?_set]

theorem get?_set_of_ne (other : q ≠ r) (n m : String) (v : Value) :
    (s.set r n v).get? q m = s.get? q m := by
  have apart : r.index ≠ q.index := by
    intro same
    cases q
    cases r
    exact other (congrArg _ same.symm)
  simp only [get?, vars, set, Array.getElem?_modify, if_neg apart]

theorem get?_of_erase (h : (s.erase r n).get? q m = some u) : s.get? q m = some u := by
  simp only [get?, vars, erase, Array.getElem?_modify] at h ⊢
  split at h
  · cases hq : s.scopes[q.index]? with
    | none =>
      rw [hq] at h
      exact h
    | some sc =>
      rw [hq] at h
      simp only [Option.map_some, Option.getD_some, Bindings.get?_erase] at h ⊢
      split at h
      · cases h
      · exact h
  · exact h

theorem parent_newScope (s : Store) (p : Option ScopeRef) (q : ScopeRef) :
    (newScope p s).2.parent q = if q.index = s.scopes.size then p else s.parent q := by
  simp only [parent, newScope, Array.getElem?_push]
  split
  · rfl
  · rfl

theorem get?_newScope (s : Store) (p : Option ScopeRef) (q : ScopeRef) (m : String) :
    (newScope p s).2.get? q m = s.get? q m := by
  simp only [get?, vars, newScope, Array.getElem?_push]
  split
  · next same => simp [same, Bindings.get?]
  · rfl

theorem get?_of_newScope {p : Option ScopeRef} (h : (newScope p s).2.get? q m = some u) :
    s.get? q m = some u := by
  rwa [get?_newScope] at h

theorem parent_of_size_le (h : s.scopes.size ≤ r.index) : s.parent r = none := by
  simp [parent, Array.getElem?_eq_none h]

theorem get?_of_size_le (h : s.scopes.size ≤ r.index) : s.get? r n = none := by
  simp [get?, vars, Array.getElem?_eq_none h, Bindings.get?]

theorem items_of_newList {items : Array Value} {l : ListRef}
    (h : u ∈ (newList items s).2.items l) : u ∈ items ∨ u ∈ s.items l := by
  simp only [newList, Store.items, Array.getElem?_push] at h ⊢
  split at h
  · exact .inl h
  · exact .inr h

theorem items_of_modifyList {items : Array Value} {k l : ListRef}
    (h : u ∈ (s.modifyList k fun _ => items).items l) : u ∈ items ∨ u ∈ s.items l := by
  simp only [modifyList, Store.items, Array.getElem?_modify] at h ⊢
  split at h
  · cases hl : s.lists[l.index]? with
    | none =>
      rw [hl] at h
      exact .inr h
    | some old =>
      rw [hl] at h
      exact .inl h
  · exact .inr h

theorem function?_of_newFunction {f g : Closure} {k : FunctionRef}
    (h : (newFunction f s).2.function? k = some g) : g = f ∨ s.function? k = some g := by
  simp only [newFunction, function?, Array.getElem?_push] at h ⊢
  split at h
  · exact .inl (Option.some.inj h).symm
  · exact .inr h

/-- A scope and the scopes around it, innermost first. -/
def chain (s : Store) : Option ScopeRef → List ScopeRef
  | none => []
  | some r => r :: s.ancestors r

theorem ancestors_eq (older : ∀ r p, s.parent r = some p → p.index < r.index) (r : ScopeRef) :
    s.ancestors r = s.chain (s.parent r) := by
  rw [ancestors]
  split
  · next p hp =>
    rw [if_pos (older r p hp), hp]
    rfl
  · next hp =>
    rw [hp]
    rfl

theorem parent_eq_head? (older : ∀ r p, s.parent r = some p → p.index < r.index) (r : ScopeRef) :
    s.parent r = (s.ancestors r).head? := by
  rw [s.ancestors_eq older]
  cases s.parent r <;> rfl

end Store

theorem mem_boundArguments {f : Function} {args defaults : List Value} {n : String} {v : Value}
    (h : (n, v) ∈ boundArguments f args defaults) :
    n ∈ f.head.params.map (·.name) ∧ (v ∈ args ∨ v ∈ defaults) := by
  obtain ⟨hn, hv⟩ := List.of_mem_zip h
  exact ⟨hn, (List.mem_append.1 hv).imp_right List.mem_of_mem_drop⟩

end Footprint
