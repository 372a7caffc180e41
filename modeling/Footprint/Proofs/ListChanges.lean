import Footprint.Machine.Exec
import Footprint.Proofs.Indexing
import Footprint.Proofs.Iteration
import Mathlib.Data.List.Basic

set_option autoImplicit false

/-!
Operations that change a list: its methods, assigning and deleting an item, and extending it in
place. One that fails leaves the store as it was. One that succeeds changes its list alone, just as
the same operation on the sequence of its items does.
-/

namespace Footprint

/-- An operation on a list, with operands that have been evaluated. -/
inductive ListOp where
  | append (args : List Value)
  | pop (args : List Value)
  | setItem (index v : Value)
  | deleteItem (index : Value)
  | extend (operand : Value)

namespace ListOp

variable {σ : Type}

open Footprint.Action

/-- What is done for the operation on a list, which gives a value. Extending it in place is an
augmented assignment, up to where the target is bound to what it gives. -/
def run (env : Setting σ) (r : ListRef) (p : Position) : ListOp → Action σ Value
  | append args => editAt p (·.callMethod r .append args)
  | pop args => editAt p (·.callMethod r .pop args)
  | setItem index v => do
    editAt p (·.setItem (.list r) index v)
    return .none
  | deleteItem index => do
    editAt p (·.deleteItem (.list r) index)
    return .none
  | extend operand => env.augmented .add (.list r) operand p

/-- The place that an index names among `n` items, or the kind of exception it leads to. -/
def named (n : Nat) (index : Value) : Except String Nat :=
  match index.asInt? with
  | none => .error "TypeError"
  | some i => (placeOf? n i.toInt).elim (.error "IndexError") .ok

/-- What the operation makes of the items of its list and the value it gives, or the kind of
exception it leads to. -/
def effect (s : Store) (r : ListRef) (op : ListOp) : Except String (List Value × Value) :=
  let items := (s.items r).toList
  match op with
  | append [v] => .ok (items ++ [v], .none)
  | append _ => .error "TypeError"
  | pop args =>
    if items = [] then .error "IndexError"
    else
      match args with
      | [] => .ok (items.dropLast, items.getLastD .none)
      | [index] => (named items.length index).map fun k => (items.eraseIdx k, items.getD k .none)
      | _ => .error "TypeError"
  | setItem index v => (named items.length index).map fun k => (items.set k v, .none)
  | deleteItem index => (named items.length index).map fun k => (items.eraseIdx k, .none)
  | extend operand =>
    match s.elements? operand with
    | none => .error "TypeError"
    | some vs =>
      if maxLength < items.length + vs.length then .error "MemoryError"
      else .ok (items ++ vs, .list r)

end ListOp

namespace Store

variable {s : Store} {r : ListRef}

theorem callMethod_pop_last (nonempty : s.size r ≠ 0) :
    s.callMethod r .pop [] = .ok fun s' =>
      ((s.items r).getD (s.size r - 1) .none,
        s'.modifyList r (·.eraseIdxIfInBounds (s.size r - 1))) :=
  if_neg nonempty

theorem callMethod_pop_index (nonempty : s.size r ≠ 0) (index : Value) :
    s.callMethod r .pop [index] = (place index (s.size r) .pop).map fun k s' =>
      ((s.items r).getD k .none, s'.modifyList r (·.eraseIdxIfInBounds k)) := by
  refine (if_neg nonempty).trans ?_
  change (place index (s.size r) .pop >>= fun k => pure _) = _
  cases place index (s.size r) .pop <;> rfl

theorem callMethod_pop_many (nonempty : s.size r ≠ 0) (v w : Value) (vs : List Value) :
    s.callMethod r .pop (v :: w :: vs) = .error (.atMostOneArgument "pop" (vs.length + 2)) :=
  if_neg nonempty

end Store

theorem eraseIdxIfInBounds_eq_toArray {α : Type} (xs : Array α) (k : Nat) :
    xs.eraseIdxIfInBounds k = (xs.toList.eraseIdx k).toArray := by
  apply Array.ext'
  by_cases inside : k < xs.size
  · simp [Array.eraseIdxIfInBounds, inside]
  · have outside : xs.toList.length ≤ k := Nat.not_lt.1 inside
    simp [Array.eraseIdxIfInBounds, inside, List.eraseIdx_of_length_le outside]

theorem checkLength_of_le {n : Nat} (h : n ≤ maxLength) : checkLength n = .ok () :=
  if_neg (Nat.not_lt.2 h)

theorem checkLength_of_lt {n : Nat} (h : maxLength < n) : checkLength n = .error .tooLong :=
  if_pos h

/-- Only what has too many elements is refused before it is gone through. -/
theorem Store.checkCollectable_cases {s : Store} {v : Value} {vs : List Value}
    (elements : s.elements? v = some vs) :
    Store.checkCollectable v = .ok () ∨
      maxLength < vs.length ∧ Store.checkCollectable v = .error .tooLong := by
  cases v with
  | range q =>
    simp only [elements?] at elements
    split at elements
    · cases elements
    · cases elements
      rw [List.length_map, Range.length_toList]
      rcases Nat.lt_or_ge maxLength q.length with long | short
      · exact .inr ⟨long, checkLength_of_lt long⟩
      · exact .inl (checkLength_of_le short)
  | _ => exact .inl rfl

/-- An index names a place as it does among integers of any size. -/
theorem place_named {n : Nat} (index : Value) (on : Indexed) (hn : n < 2 ^ 63) :
    (∃ k, ListOp.named n index = .ok k ∧ place index n on = .ok k) ∨
    ∃ kind f, ListOp.named n index = .error kind ∧ place index n on = .error f ∧
      f.kind? = some kind := by
  unfold ListOp.named
  cases hi : index.asInt? with
  | none => exact .inr ⟨_, _, rfl, by rw [place, hi], rfl⟩
  | some i =>
    rw [place_of_lt on hi hn]
    dsimp only
    cases found : placeOf? n i.toInt with
    | none => exact .inr ⟨_, _, rfl, rfl, rfl⟩
    | some k => exact .inl ⟨k, rfl, rfl⟩

namespace Setting

variable {σ : Type} {env : Setting σ} {m : Machine σ} {p : Position} {v : Value} {vs : List Value}

open Footprint.Action

/-! ### Collecting values -/

theorem timely_collect (elements : m.store.elements? v = some vs)
    (short : Store.checkCollectable v = .ok ()) :
    env.Timely m vs.toArray (env.collect p v m) := by
  obtain ⟨items, iterate, yields⟩ := Store.exists_yields elements
  have loop : ∃ collected, collected = vs.toArray ∧
      env.Timely m collected (env.goThrough (fun vs v => return vs.push v) #[] items m) :=
    timely_goThrough (P := fun taken collected => collected = taken.toArray) yields rfl
      fun before v after split collected same => ⟨collected.push v, by simp [same], fun _ => rfl⟩
  obtain ⟨collected, rfl, run⟩ := loop
  unfold collect
  simpa only [bind_apply, lift, readAt, observe, short, iterate, Except.mapError] using run

theorem collect_of_refused {f : Fault} (refuses : Store.checkCollectable v = .error f) :
    env.collect p v m = .failed (.ofFault f p) m := by
  simp only [collect, bind_apply, lift, readAt, observe, refuses, Except.mapError]

theorem collect_of_missing (made : ∀ q, v = .range q → q.step ≠ 0)
    (missing : m.store.elements? v = none) :
    env.collect p v m = .failed (.ofFault (.notIterable v.typeName) p) m := by
  have iterate : m.store.iterate v = .error (.notIterable v.typeName) ∧
      Store.checkCollectable v = .ok () := by
    cases v with
    | range q => exact absurd missing (by simp [Store.elements?, made q rfl])
    | list | tuple | str => cases missing
    | _ => exact ⟨rfl, rfl⟩
  simp only [collect, bind_apply, lift, readAt, observe, iterate, Except.mapError]

/-! ### How an operation ends -/

/-- An operation has ended as its effect says, or the deadline has been missed. -/
inductive Ended (env : Setting σ) (m : Machine σ) (r : ListRef) :
    Except String (List Value × Value) → Ending σ Value → Prop
  | changed (items : List Value) (v : Value) (timer : Timer) :
    Ended env m r (.ok (items, v))
      (.done v { m with store := m.store.modifyList r fun _ => items.toArray, timer })
  | refused {kind : String} {f : Failure} (timer : Timer) (reason : f.kind? = some kind) :
    Ended env m r (.error kind) (.failed f { m with timer })
  | late {effect : Except String (List Value × Value)} (timer : Timer) (missed : Overrun)
      (limited : env.limits.deadline ≠ none) :
    Ended env m r effect (.failed (.deadline missed) { m with timer })

variable {r : ListRef}

theorem kind?_ofFault {f : Fault} {kind : String} (h : f.kind? = some kind) (p : Position) :
    (Failure.ofFault f p).kind? = some kind := by
  simp only [Failure.ofFault, h, Failure.kind?]

theorem ended_refused {plan : Store → Except Fault (Edit Value)} (f : Fault) {kind : String}
    (refuses : plan m.store = .error f) (reason : f.kind? = some kind) :
    env.Ended m r (.error kind) (editAt p plan m) := by
  unfold editAt
  rw [refuses]
  exact .refused m.timer (kind?_ofFault reason p)

theorem ended_changed {plan : Store → Except Fault (Edit Value)} (f : Array Value → Array Value)
    (plans : plan m.store = .ok fun s => (v, s.modifyList r f))
    (items : f (m.store.items r) = vs.toArray) :
    env.Ended m r (.ok (vs, v)) (editAt p plan m) := by
  unfold editAt
  rw [plans]
  simp only [edit_apply, m.store.modifyList_eq r f, items]
  exact .changed vs v m.timer

end Setting

namespace ListOp

variable {σ : Type} {m : Machine σ} {r : ListRef}

open Footprint.Action Setting

theorem ended_append (env : Setting σ) (p : Position) (args : List Value) :
    env.Ended m r (effect m.store r (append args)) (run env r p (append args) m) := by
  unfold effect run
  rcases args with _ | ⟨v, _ | ⟨w, rest⟩⟩
  · exact ended_refused (.appendArguments 0) rfl rfl
  · exact ended_changed (·.push v) rfl (Array.ext' Array.toList_push)
  · exact ended_refused (.appendArguments (rest.length + 2)) rfl rfl

/-- The item at a place is removed and given. -/
theorem ended_removed (env : Setting σ) (p : Position) {args : List Value} {k : Nat}
    (plans : m.store.callMethod r .pop args =
      .ok fun s => ((m.store.items r).getD k .none, s.modifyList r (·.eraseIdxIfInBounds k))) :
    env.Ended m r (.ok ((m.store.items r).toList.eraseIdx k, (m.store.items r).toList.getD k .none))
      (run env r p (pop args) m) := by
  have item : (m.store.items r).getD k .none = (m.store.items r).toList.getD k .none := by
    simp [List.getD_eq_getElem?_getD]
  rw [← item]
  unfold run
  exact ended_changed (·.eraseIdxIfInBounds k) plans (eraseIdxIfInBounds_eq_toArray _ k)

theorem ended_pop (env : Setting σ) (p : Position) (args : List Value)
    (small : m.store.size r < 2 ^ 63) :
    env.Ended m r (effect m.store r (pop args)) (run env r p (pop args) m) := by
  have length : (m.store.items r).toList.length = m.store.size r := rfl
  unfold effect
  dsimp only
  split
  · next empty =>
    have empty : m.store.size r = 0 := length ▸ List.length_eq_zero_iff.2 empty
    unfold run
    exact ended_refused .popFromEmpty (if_pos empty) rfl
  · next nonempty =>
    have nonempty : m.store.size r ≠ 0 := length ▸ mt List.length_eq_zero_iff.1 nonempty
    rcases args with _ | ⟨index, _ | ⟨w, rest⟩⟩
    · have last : m.store.size r - 1 + 1 = (m.store.items r).toList.length := by omega
      have removed := ended_removed env p (Store.callMethod_pop_last nonempty)
      dsimp only
      rw [List.dropLast_eq_eraseIdx last, List.getLastD_eq_getLast?, List.getLast?_eq_getElem?,
        length, ← List.getD_eq_getElem?_getD]
      exact removed
    · have plan := Store.callMethod_pop_index nonempty index
      dsimp only
      rw [length]
      rcases place_named index .pop small with ⟨k, named, place⟩ | ⟨kind, f, named, place, reason⟩
      · rw [named]
        rw [place] at plan
        exact ended_removed env p plan
      · rw [named]
        rw [place] at plan
        unfold run
        exact ended_refused f plan reason
    · unfold run
      exact ended_refused _ (Store.callMethod_pop_many nonempty index w rest) rfl

/-- An item at an index is changed. -/
theorem ended_atIndex (env : Setting σ) (p : Position) (index : Value)
    (small : m.store.size r < 2 ^ 63) (f : Nat → Array Value → Array Value)
    (change : Nat → List Value → List Value)
    (same : ∀ k items, f k items = (change k items.toList).toArray) :
    env.Ended m r
      ((named (m.store.items r).toList.length index).map fun k =>
        (change k (m.store.items r).toList, .none))
      ((do
        editAt p (fun s => do
          let k ← place index (s.size r) .list
          return Edit.update (·.modifyList r (f k)))
        return .none : Action σ Value) m) := by
  have length : (m.store.items r).toList.length = m.store.size r := rfl
  rw [length, bind_apply]
  unfold editAt
  rcases place_named index .list small with ⟨k, named, place⟩ | ⟨kind, fault, named, place, reason⟩
  · have items : m.store.modifyList r (f k) =
        m.store.modifyList r fun _ => (change k (m.store.items r).toList).toArray := by
      rw [Store.modifyList_eq, same]
    simp only [named, place, Except.map, Bind.bind, Except.bind, Pure.pure, Except.pure, edit_apply,
      Edit.update, items]
    exact .changed _ _ m.timer
  · simp only [named, place, Except.map, Bind.bind, Except.bind]
    exact .refused m.timer (kind?_ofFault reason p)

theorem ended_setItem (env : Setting σ) (p : Position) (index v : Value)
    (small : m.store.size r < 2 ^ 63) :
    env.Ended m r (effect m.store r (setItem index v)) (run env r p (setItem index v) m) :=
  ended_atIndex env p index small (fun k items => items.setIfInBounds k v)
    (fun k items => items.set k v) fun k items => Array.ext' (by simp)

theorem ended_deleteItem (env : Setting σ) (p : Position) (index : Value)
    (small : m.store.size r < 2 ^ 63) :
    env.Ended m r (effect m.store r (deleteItem index)) (run env r p (deleteItem index) m) :=
  ended_atIndex env p index small (fun k items => items.eraseIdxIfInBounds k)
    (fun k items => items.eraseIdx k) fun k items => eraseIdxIfInBounds_eq_toArray items k

/-- The list is extended by what has been collected, if it does not get too long. -/
theorem ended_extended (env : Setting σ) (p : Position) (vs : List Value) (timer : Timer) :
    env.Ended m r
      (if maxLength < (m.store.items r).toList.length + vs.length then .error "MemoryError"
        else .ok ((m.store.items r).toList ++ vs, .list r))
      ((do
        editAt p (·.extend r vs)
        return .list r : Action σ Value) { m with timer }) := by
  have length : (m.store.items r).toList.length = m.store.size r := rfl
  rw [length, bind_apply]
  unfold editAt Store.extend
  split
  · next long =>
    simp only [checkLength_of_lt long, Bind.bind, Except.bind]
    exact .refused timer (kind?_ofFault rfl p)
  · next short =>
    have items : m.store.modifyList r (· ++ vs) =
        m.store.modifyList r fun _ => ((m.store.items r).toList ++ vs).toArray := by
      rw [Store.modifyList_eq]
      exact congrArg (m.store.modifyList r) (funext fun _ => Array.ext' (by simp))
    simp only [checkLength_of_le (Nat.not_lt.1 short), Bind.bind, Except.bind, Pure.pure,
      Except.pure, edit_apply, Edit.update, items]
    exact .changed _ _ timer

theorem ended_extend (env : Setting σ) (p : Position) (operand : Value)
    (made : ∀ q, operand = .range q → q.step ≠ 0) :
    env.Ended m r (effect m.store r (extend operand)) (run env r p (extend operand) m) := by
  unfold effect run augmented
  dsimp only
  rw [bind_apply]
  split
  · next missing =>
    rw [collect_of_missing made missing]
    exact .refused m.timer (kind?_ofFault rfl p)
  · next vs elements =>
    rcases Store.checkCollectable_cases elements with short | ⟨long, refuses⟩
    · have collected : env.Timely m vs.toArray (env.collect p operand m) :=
        timely_collect elements short
      generalize env.collect p operand m = e at collected
      cases collected with
      | late timer missed limited => exact .late timer missed limited
      | inTime timer =>
        exact ended_extended env p vs timer
    · have total : maxLength < (m.store.items r).toList.length + vs.length := by omega
      rw [if_pos total, collect_of_refused refuses]
      exact .refused m.timer (kind?_ofFault rfl p)

theorem ended_run (env : Setting σ) (p : Position) (op : ListOp) (small : m.store.size r < 2 ^ 63)
    (made : ∀ q, op = extend (.range q) → q.step ≠ 0) :
    env.Ended m r (op.effect m.store r) (op.run env r p m) := by
  cases op with
  | append args => exact ended_append env p args
  | pop args => exact ended_pop env p args small
  | setItem index v => exact ended_setItem env p index v small
  | deleteItem index => exact ended_deleteItem env p index small
  | extend operand => exact ended_extend env p operand fun q same => made q (congrArg _ same)

/-- An operation on a list in the store ends. If it gives a value, this and the items that the list
then has are those of its effect, and all other lists are as before. If it fails, it does so for the
reason that its effect states or as the deadline has been missed, and the store is as before. No
list in memory has `2 ^ 63` items, and there are no progressions with a step of zero. -/
theorem changes (env : Setting σ) (p : Position) (op : ListOp)
    (inside : r.index < m.store.lists.size) (small : m.store.size r < 2 ^ 63)
    (made : ∀ q, op = extend (.range q) → q.step ≠ 0) :
    (∀ v m', op.run env r p m = .done v m' →
      op.effect m.store r = .ok ((m'.store.items r).toList, v) ∧
        ∀ q, q ≠ r → m'.store.items q = m.store.items q) ∧
    (∀ f m', op.run env r p m = .failed f m' →
      m'.store = m.store ∧
        ((∃ kind, op.effect m.store r = .error kind ∧ f.kind? = some kind) ∨
          env.limits.deadline ≠ none ∧ ∃ missed, f = .deadline missed)) ∧
    ∀ m', op.run env r p m ≠ .unfinished m' := by
  have ended := ended_run env p op small made
  generalize op.run env r p m = e at ended
  generalize op.effect m.store r = effect at ended
  cases ended with
  | changed items v timer =>
    refine ⟨fun w m' same => ?_, nofun, nofun⟩
    cases same
    have target := Store.items_modifyList_self inside fun _ => items.toArray
    exact ⟨by rw [target], fun q other => Store.items_modifyList_of_ne other _⟩
  | refused timer reason =>
    refine ⟨nofun, fun g m' same => ?_, nofun⟩
    cases same
    exact ⟨rfl, .inl ⟨_, rfl, reason⟩⟩
  | late timer missed limited =>
    refine ⟨nofun, fun g m' same => ?_, nofun⟩
    cases same
    exact ⟨rfl, .inr ⟨limited, missed, rfl⟩⟩

/-- Extended by itself, a list has its items twice. -/
theorem changes_itself :
    let m : Machine Unit :=
      { Machine.initial () with store := { Store.empty with lists := #[#[.int 1, .int 2]] } }
    (⟨0⟩ : ListRef).index < m.store.lists.size ∧ m.store.size ⟨0⟩ < 2 ^ 63 ∧
      ∃ m', run ⟨.default, .steady, none⟩ ⟨0⟩ .start (extend (.list ⟨0⟩)) m = .done (.list ⟨0⟩) m' ∧
        (m'.store.items ⟨0⟩).toList = [.int 1, .int 2, .int 1, .int 2] := by
  intro m
  have inside : (⟨0⟩ : ListRef).index < m.store.lists.size := by decide
  have small : m.store.size ⟨0⟩ < 2 ^ 63 := by decide
  have spec :=
    changes (m := m) ⟨.default, .steady, none⟩ .start (extend (.list ⟨0⟩)) inside small nofun
  refine ⟨inside, small, _, rfl, ?_⟩
  exact (Prod.mk.inj (Except.ok.inj (spec.1 _ _ rfl).1)).1.symm

end ListOp

end Footprint
