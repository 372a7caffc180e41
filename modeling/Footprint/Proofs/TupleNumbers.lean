import Footprint.Proofs.Scenes
import Footprint.Proofs.StoreScopes

set_option autoImplicit false

/-!
The numbers of tuples tell tuples apart. A ledger says which items each tuple was made with; no
number is given twice, so all tuples that a run meets agree with the ledger.
-/

namespace Footprint

/-- The items of each tuple that has been made, by its number. -/
structure Ledger where
  items? : Nat → Option (List Value)

namespace Ledger

/-- What the first ledger has is in the second one too. -/
def Le (w w' : Ledger) : Prop := ∀ ⦃id vs⦄, w.items? id = some vs → w'.items? id = some vs

theorem Le.refl (w : Ledger) : w.Le w := fun _ _ => id

theorem Le.trans {u v w : Ledger} (h : u.Le v) (h' : v.Le w) : u.Le w := fun _ _ has => h' (h has)

/-- The value is no tuple, or it is a tuple of the ledger with all that is in it. -/
inductive Good (w : Ledger) : Value → Prop
  | other {v : Value} : (∀ id vs, v ≠ .tuple id vs) → Good w v
  | tuple {id : Nat} {vs : List Value} : w.items? id = some vs → (∀ v ∈ vs, Good w v) →
      Good w (.tuple id vs)

section

variable {w w' : Ledger} {v : Value} {id : Nat} {vs us : List Value}

theorem Good.mono (h : w.Good v) (later : w.Le w') : w'.Good v := by
  induction h with
  | other other => exact .other other
  | tuple has _ ih => exact .tuple (later has) ih

theorem Good.has (h : w.Good (.tuple id vs)) : w.items? id = some vs := by
  cases h with
  | other other => exact absurd rfl (other id vs)
  | tuple has _ => exact has

theorem Good.parts (h : w.Good (.tuple id vs)) : ∀ v ∈ vs, w.Good v := by
  cases h with
  | other other => exact absurd rfl (other id vs)
  | tuple _ good => exact good

/-- Tuples with the same number have the same items. -/
theorem Good.items_eq (h : w.Good (.tuple id vs)) (h' : w.Good (.tuple id us)) : vs = us :=
  Option.some.inj (h.has.symm.trans h'.has)

/-- The ledger with one tuple more. -/
def enter (w : Ledger) (id : Nat) (vs : List Value) : Ledger :=
  ⟨fun n => if n = id then some vs else w.items? n⟩

theorem le_enter (free : w.items? id = none) (vs : List Value) : w.Le (w.enter id vs) := by
  intro n us has
  have other : n ≠ id := by
    rintro rfl
    cases free.symm.trans has
  exact (if_neg other).trans has

end

/-- The ledger has no tuple yet that is still to be made, and all values in the store agree with
it. -/
structure Sound (w : Ledger) (store : Store) : Prop where
  free {id : Nat} : store.nextId ≤ id → w.items? id = none
  bound {r : ScopeRef} {n : String} {v : Value} : store.get? r n = some v → w.Good v
  items {l : ListRef} {v : Value} : v ∈ store.items l → w.Good v
  defaults {q : FunctionRef} {f : Closure} : store.function? q = some f → ∀ v ∈ f.defaults, w.Good v

namespace Sound

variable {w w' : Ledger} {store : Store}

theorem stored (sound : w.Sound store) {v : Value} (h : store.Stores v) : w.Good v := by
  induction h with
  | binding h => exact sound.bound h
  | item h => exact sound.items h
  | default hf h => exact sound.defaults hf _ h
  | part _ h ih => exact ih.parts _ h

/-- Numbers that have been given stay given, whatever else there is in the ledger. -/
theorem count (sound : w.Sound store) (later : w.Le w') {n : Nat}
    (free : ∀ id, n ≤ id → w'.items? id = none) : w'.Sound { store with nextId := n } where
  free := free _
  bound h := (sound.bound h).mono later
  items h := (sound.items h).mono later
  defaults h v hv := (sound.defaults h v hv).mono later

theorem set (sound : w.Sound store) {r : ScopeRef} {n : String} {v : Value} (good : w.Good v) :
    w.Sound (store.set r n v) where
  free := sound.free
  bound h := by
    rcases Store.get?_of_set h with ⟨rfl, rfl, rfl⟩ | old
    · exact good
    · exact sound.bound old
  items := sound.items
  defaults := sound.defaults

theorem erase (sound : w.Sound store) (r : ScopeRef) (n : String) : w.Sound (store.erase r n) where
  free := sound.free
  bound h := sound.bound (Store.get?_of_erase h)
  items := sound.items
  defaults := sound.defaults

theorem newScope (sound : w.Sound store) (p : Option ScopeRef) :
    w.Sound (Store.newScope p store).2 where
  free := sound.free
  bound h := sound.bound (Store.get?_of_newScope h)
  items := sound.items
  defaults := sound.defaults

theorem newList (sound : w.Sound store) {items : Array Value} (good : ∀ v ∈ items, w.Good v) :
    w.Sound (Store.newList items store).2 where
  free := sound.free
  bound := sound.bound
  items h := (Store.items_of_newList h).elim (good _) sound.items
  defaults := sound.defaults

theorem setItems (sound : w.Sound store) {l : ListRef} {items : Array Value}
    (good : ∀ v ∈ items, w.Good v) : w.Sound (store.modifyList l fun _ => items) where
  free := sound.free
  bound := sound.bound
  items h := (Store.items_of_modifyList h).elim (good _) sound.items
  defaults := sound.defaults

theorem newFunction (sound : w.Sound store) {f : Closure} (good : ∀ v ∈ f.defaults, w.Good v) :
    w.Sound (Store.newFunction f store).2 where
  free := sound.free
  bound := sound.bound
  items := sound.items
  defaults h := (Store.function?_of_newFunction h).elim (fun same => same ▸ good) sound.defaults

theorem newTuple (sound : w.Sound store) {vs : List Value} (good : ∀ v ∈ vs, w.Good v) :
    (w.enter store.nextId vs).Sound (Store.newTuple vs store).2 ∧
      (w.enter store.nextId vs).Good (Store.newTuple vs store).1 := by
  have later : w.Le (w.enter store.nextId vs) := le_enter (sound.free (Nat.le_refl _)) vs
  refine ⟨sound.count later fun id past => ?_, ?_⟩
  · exact (if_neg (Nat.ne_of_gt past)).trans (sound.free (Nat.le_of_lt past))
  · exact .tuple (if_pos rfl) fun v hv => (good v hv).mono later

theorem newException (sound : w.Sound store) (kind message : String) :
    w.Sound (Store.newException kind message store).2 :=
  sound.count (Le.refl w) fun _ past => sound.free (Nat.le_of_lt past)

theorem callScope (sound : w.Sound store) {p : Option ScopeRef} {vars : List (String × Value)}
    (good : ∀ b ∈ vars, w.Good b.2) : w.Sound (callScope p vars store).2 := by
  have bound (r : ScopeRef) {store : Store} (sound : w.Sound store) :
      w.Sound (vars.foldl (fun s b => s.set r b.1 b.2) store) := by
    induction vars generalizing store with
    | nil => exact sound
    | cons b vars ih =>
      exact ih (fun b hb => good b (List.mem_cons_of_mem _ hb))
        (sound.set (good b List.mem_cons_self))
  exact bound _ (sound.newScope p)

theorem initial : (⟨fun _ => none⟩ : Ledger).Sound .initial where
  free _ := rfl
  bound h := nomatch Store.get?_of_newScope h
  items h := nomatch h
  defaults h := nomatch h

end Sound

end Ledger

end Footprint
