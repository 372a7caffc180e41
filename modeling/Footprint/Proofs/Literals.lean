import Mathlib.Data.Finset.Card
import Footprint.Session.Interpreter

set_option autoImplicit false

/-!
Values that are trees of literals: no list in one holds itself. Their text as items ends, and two of
them are equal if their trees are.
-/

namespace Footprint

namespace Datum

mutual

/-- The tree is made of literals, lists and tuples. The least integer has no literal. -/
def isLiteral : Datum → Bool
  | none | bool _ | str _ => true
  | int n => decide (n ≠ .minValue)
  | list items | tuple items => areLiterals items
  | _ => false

def areLiterals : List Datum → Bool
  | [] => true
  | d :: ds => d.isLiteral && areLiterals ds

end

mutual

/-- How deep lists are nested in the tree. -/
def nesting : Datum → Nat
  | list items => nestingOf items + 1
  | tuple items => nestingOf items
  | _ => 0

def nestingOf : List Datum → Nat
  | [] => 0
  | d :: ds => max d.nesting (nestingOf ds)

end

mutual

/-- The text of a tree of literals. -/
def text : Datum → List Char
  | none => ['N', 'o', 'n', 'e']
  | bool true => ['T', 'r', 'u', 'e']
  | bool false => ['F', 'a', 'l', 's', 'e']
  | int n => (toString n.toInt).toList
  | str s => Text.quotedChars s.toList
  | list items => '[' :: (textOf items ++ [']'])
  | tuple items => '(' :: (textOf items ++ (if items.length = 1 then [',', ')'] else [')']))
  | _ => []

/-- The texts of trees, with commas between them. -/
def textOf : List Datum → List Char
  | [] => []
  | d :: ds => d.text ++ textAfter ds

def textAfter : List Datum → List Char
  | [] => []
  | d :: ds => ',' :: ' ' :: (d.text ++ textAfter ds)

end

end Datum

mutual

/-- The value is the root of the tree of values. -/
inductive Store.Holds (s : Store) : Value → Datum → Prop
  | none : Holds s .none .none
  | bool (b : Bool) : Holds s (.bool b) (.bool b)
  | int (n : Int64) : Holds s (.int n) (.int n)
  | str (t : String) : Holds s (.str t) (.str t)
  | list {r : ListRef} {items : Array Value} {ds : List Datum} :
      s.lists[r.index]? = some items → HoldsAll s items.toList ds → Holds s (.list r) (.list ds)
  | tuple {id : Nat} {items : List Value} {ds : List Datum} :
      HoldsAll s items ds → Holds s (.tuple id items) (.tuple ds)

inductive Store.HoldsAll (s : Store) : List Value → List Datum → Prop
  | nil : HoldsAll s [] []
  | cons {v : Value} {vs : List Value} {d : Datum} {ds : List Datum} :
      Holds s v d → HoldsAll s vs ds → HoldsAll s (v :: vs) (d :: ds)

end

namespace Store

variable {s : Store}

theorem items_eq {r : ListRef} {items : Array Value} (h : s.lists[r.index]? = some items) :
    s.items r = items := by
  rw [Store.items, h]
  rfl

mutual

/-- A value is the root of one tree alone. -/
theorem Holds.unique {v : Value} {d d' : Datum} (h : s.Holds v d) (h' : s.Holds v d') : d = d' := by
  cases h with
  | none | bool | int | str =>
    cases h'
    rfl
  | list at_ items =>
    cases h' with
    | list at' items' =>
      obtain rfl := Option.some.inj (at_.symm.trans at')
      rw [HoldsAll.unique items items']
  | tuple items =>
    cases h' with
    | tuple items' => rw [HoldsAll.unique items items']

theorem HoldsAll.unique {vs : List Value} {ds ds' : List Datum} (h : s.HoldsAll vs ds)
    (h' : s.HoldsAll vs ds') : ds = ds' := by
  cases h with
  | nil =>
    cases h'
    rfl
  | cons first others =>
    cases h' with
    | cons first' others' => rw [Holds.unique first first', HoldsAll.unique others others']

end

theorem HoldsAll.length_eq {vs : List Value} {ds : List Datum} (h : s.HoldsAll vs ds) :
    vs.length = ds.length := by
  induction vs generalizing ds with
  | nil =>
    cases h
    rfl
  | cons v vs ih =>
    cases h with
    | cons first others => exact congrArg (· + 1) (ih others)

/-! ### Depth -/

theorem card_le_size {around : Finset Nat} (old : ∀ i ∈ around, i < s.lists.size) :
    around.card ≤ s.lists.size := by
  have inside : around ⊆ Finset.range s.lists.size := fun i hi => Finset.mem_range.2 (old i hi)
  simpa using Finset.card_le_card inside

mutual

/-- The lists around a value differ from one another and from those inside of it, so that there are
as many lists in the store. -/
theorem Holds.nesting_add_card_le {v : Value} {d : Datum} (h : s.Holds v d) (around : Finset Nat)
    (old : ∀ i ∈ around, i < s.lists.size ∧ ∃ d', s.Holds (.list ⟨i⟩) d' ∧ sizeOf d < sizeOf d') :
    d.nesting + around.card ≤ s.lists.size := by
  have few : around.card ≤ s.lists.size := card_le_size fun i hi => (old i hi).1
  cases h with
  | none | bool | int | str =>
    simpa [Datum.nesting] using few
  | tuple items =>
    refine HoldsAll.nesting_add_card_le items around fun i hi => ?_
    obtain ⟨stored, d', hd', less⟩ := old i hi
    simp only [Datum.tuple.sizeOf_spec] at less
    exact ⟨stored, d', hd', by omega⟩
  | @list r items ds at_ inside =>
    have stored : r.index < s.lists.size := (Array.getElem?_eq_some_iff.1 at_).1
    have fresh : r.index ∉ around := by
      intro again
      obtain ⟨-, d', hd', less⟩ := old r.index again
      rw [Holds.unique hd' (.list at_ inside)] at less
      exact Nat.lt_irrefl _ less
    have deeper := HoldsAll.nesting_add_card_le inside (insert r.index around) fun i hi => by
      rcases Finset.mem_insert.1 hi with rfl | hi
      · exact ⟨stored, .list ds, .list at_ inside, by simp⟩
      · obtain ⟨stored, d', hd', less⟩ := old i hi
        simp only [Datum.list.sizeOf_spec] at less
        exact ⟨stored, d', hd', by omega⟩
    rw [Finset.card_insert_of_notMem fresh] at deeper
    rw [Datum.nesting]
    omega

theorem HoldsAll.nesting_add_card_le {vs : List Value} {ds : List Datum} (h : s.HoldsAll vs ds)
    (around : Finset Nat)
    (old : ∀ i ∈ around, i < s.lists.size ∧ ∃ d', s.Holds (.list ⟨i⟩) d' ∧ sizeOf ds < sizeOf d') :
    Datum.nestingOf ds + around.card ≤ s.lists.size := by
  cases h with
  | nil =>
    rw [Datum.nestingOf, Nat.zero_add]
    exact card_le_size fun i hi => (old i hi).1
  | @cons v vs d ds first others =>
    have le := Holds.nesting_add_card_le first around fun i hi => by
      obtain ⟨stored, d', hd', less⟩ := old i hi
      simp only [List.cons.sizeOf_spec] at less
      exact ⟨stored, d', hd', by omega⟩
    have le' := HoldsAll.nesting_add_card_le others around fun i hi => by
      obtain ⟨stored, d', hd', less⟩ := old i hi
      simp only [List.cons.sizeOf_spec] at less
      exact ⟨stored, d', hd', by omega⟩
    rw [Datum.nestingOf]
    omega

end

/-- Lists are nested in a value at most as deep as there are lists. -/
theorem Holds.nesting_le {v : Value} {d : Datum} (h : s.Holds v d) : d.nesting ≤ s.lists.size :=
  h.nesting_add_card_le ∅ (by simp)

/-! ### Texts -/

theorem joinOnto?_texts (t : String) (ds : List Datum) :
    joinOnto? t (ds.map fun d => some (String.ofList d.text)) =
      some (t ++ String.ofList (Datum.textAfter ds)) := by
  induction ds generalizing t with
  | nil => simp [joinOnto?, Datum.textAfter]
  | cons d ds ih =>
    rw [List.map_cons, joinOnto?, Option.bind_eq_bind, Option.bind_some, ih, Datum.textAfter]
    refine congrArg some (String.toList_inj.1 ?_)
    simp

theorem joined?_texts (ds : List Datum) :
    joined? (ds.map fun d => some (String.ofList d.text)) =
      some (String.ofList (Datum.textOf ds)) := by
  cases ds with
  | nil => rfl
  | cons d ds =>
    rw [List.map_cons, joined?, Option.bind_eq_bind, Option.bind_some, joinOnto?_texts,
      Datum.textOf, String.ofList_append]

mutual

theorem Holds.reprWithin {v : Value} {d : Datum} (h : s.Holds v d) {k : Nat}
    (deep : d.nesting ≤ k) :
    s.reprWithin k v = some (String.ofList d.text) := by
  cases h with
  | none | int | str => cases k <;> simp [Store.reprWithin, Value.reprWith, Datum.text, Text.quoted]
  | bool b => cases k <;> cases b <;> rfl
  | tuple items =>
    rw [Datum.nesting] at deep
    rw [reprWithin_tuple, HoldsAll.reprWithin items deep, joined?_texts, Datum.text,
      items.length_eq]
    refine congrArg some (String.toList_inj.1 ?_)
    split <;> simp
  | list at_ items =>
    rw [Datum.nesting] at deep
    obtain ⟨k, rfl⟩ : ∃ j, k = j + 1 := ⟨k - 1, by omega⟩
    rw [Store.reprWithin, Value.reprWith, items_eq at_, HoldsAll.reprWithin items (by omega),
      joined?_texts, Datum.text]
    refine congrArg some (String.toList_inj.1 ?_)
    simp

theorem HoldsAll.reprWithin {vs : List Value} {ds : List Datum} (h : s.HoldsAll vs ds) {k : Nat}
    (deep : Datum.nestingOf ds ≤ k) :
    vs.map (s.reprWithin k) = ds.map fun d => some (String.ofList d.text) := by
  cases h with
  | nil => rfl
  | cons first others =>
    rw [Datum.nestingOf] at deep
    rw [List.map_cons, List.map_cons, Holds.reprWithin first (by omega),
      HoldsAll.reprWithin others (by omega)]

end

/-- The text of a tree as an item ends. -/
theorem Holds.repr?_eq {v : Value} {d : Datum} (h : s.Holds v d) :
    s.repr? v = some (String.ofList d.text) := h.reprWithin (Nat.le_succ_of_le h.nesting_le)

/-! ### Equality -/

theorem equalItemsWith_eq (lists : ListRef → ListRef → Option Bool) (vs ws : List Value) :
    Value.equalItemsWith lists vs ws = allEqual (Value.equalWith lists) vs ws := by
  induction vs generalizing ws with
  | nil => rfl
  | cons v vs ih =>
    cases ws with
    | nil => rfl
    | cons w ws =>
      rw [Value.equalItemsWith, allEqual]
      simp only [ih]

theorem equalWithin_tuple (s : Store) (k id id' : Nat) (vs ws : List Value)
    (same : vs.length = ws.length) :
    s.equalWithin k (.tuple id vs) (.tuple id' ws) = allEqual (s.equalWithin k) vs ws := by
  cases k <;> simp only [equalWithin, Value.equalWith, if_pos same, equalItemsWith_eq]

mutual

theorem Holds.equalWithin {v w : Value} {d : Datum} (h : s.Holds v d) (h' : s.Holds w d) {k : Nat}
    (deep : d.nesting ≤ k) : s.equalWithin k v w = some true := by
  cases h with
  | none | bool | int | str =>
    cases h'
    cases k <;>
      simp [Store.equalWithin, Value.equalWith, Value.atomsEqual, Value.isNumber, Value.isSame,
        Value.numbersEqual]
  | tuple items =>
    cases h' with
    | tuple items' =>
      rw [Datum.nesting] at deep
      rw [equalWithin_tuple s _ _ _ _ _ (items.length_eq.trans items'.length_eq.symm)]
      exact HoldsAll.equalWithin items items' deep
  | list at_ items =>
    cases h' with
    | list at' items' =>
      rw [Datum.nesting] at deep
      obtain ⟨k, rfl⟩ : ∃ j, k = j + 1 := ⟨k - 1, by omega⟩
      have sizes := items.length_eq.trans items'.length_eq.symm
      rw [Store.equalWithin, Value.equalWith]
      split
      · rfl
      · rw [Store.size, Store.size, items_eq at_, items_eq at']
        rw [if_pos (by simpa using sizes)]
        exact HoldsAll.equalWithin items items' (by omega)

theorem HoldsAll.equalWithin {vs ws : List Value} {ds : List Datum} (h : s.HoldsAll vs ds)
    (h' : s.HoldsAll ws ds) {k : Nat} (deep : Datum.nestingOf ds ≤ k) :
    allEqual (s.equalWithin k) vs ws = some true := by
  cases h with
  | nil =>
    cases h'
    rfl
  | cons first others =>
    cases h' with
    | cons first' others' =>
      rw [Datum.nestingOf] at deep
      rw [allEqual, Holds.equalWithin first first' (by omega)]
      exact HoldsAll.equalWithin others others' (by omega)

end

/-- Values with one tree are equal. -/
theorem Holds.equal? {v w : Value} {d : Datum} (h : s.Holds v d) (h' : s.Holds w d) :
    s.equal? v w = some true := by
  refine h.equalWithin h' ?_
  have square : s.lists.size ≤ s.lists.size * s.lists.size := Nat.le_mul_self _
  exact Nat.le_succ_of_le (h.nesting_le.trans square)

theorem Holds.typeName_eq {v w : Value} {d : Datum} {s' : Store} (h : s.Holds v d)
    (h' : s'.Holds w d) : v.typeName = w.typeName := by
  cases h <;> cases h' <;> rfl

end Store

end Footprint
