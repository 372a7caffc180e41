import Footprint.Machine.Exec

set_option autoImplicit false

/-!
Changes of the store that leave the functions in it as they are: all but the making of a function.
-/

namespace Footprint

/-- The change leaves the functions in the store as they are. -/
def Edit.KeepsFunctions {α : Type} (e : Edit α) : Prop := ∀ s, (e s).2.functions = s.functions

/-- A computation with a value has had one in its first part. -/
theorem ok_of_bind {ε α β : Type} {x : Except ε α} {f : α → Except ε β} {b : β}
    (h : x >>= f = .ok b) : ∃ a, x = .ok a ∧ f a = .ok b := by
  cases x with
  | error e => cases h
  | ok a => exact ⟨a, rfl, h⟩

namespace Store

variable {e : Edit Value} {u : Edit Unit}

@[simp] theorem functions_set (s : Store) (r : ScopeRef) (name : String) (v : Value) :
    (s.set r name v).functions = s.functions := rfl

theorem keeps_value (v : Value) : (Edit.value v).KeepsFunctions := fun _ => rfl

theorem keeps_newList (items : Array Value) : (newList items).KeepsFunctions := fun _ => rfl

theorem keeps_newTuple (items : List Value) : (newTuple items).KeepsFunctions := fun _ => rfl

theorem keeps_newException (kind message : String) :
    (newException kind message).KeepsFunctions := fun _ => rfl

theorem keeps_newScope (parent : Option ScopeRef) : (newScope parent).KeepsFunctions :=
  fun _ => rfl

theorem keeps_callScope (closure : Option ScopeRef) (vars : List (String × Value)) :
    (callScope closure vars).KeepsFunctions := by
  intro s
  have h (vars : List (String × Value)) (r : ScopeRef) (s : Store) :
      (vars.foldl (fun s b => s.set r b.1 b.2) s).functions = s.functions := by
    induction vars generalizing s with
    | nil => rfl
    | cons b vars ih => simp [ih]
  exact h vars _ _

theorem keeps_map_value {x : Except Fault Value} (h : x.map Edit.value = .ok e) :
    e.KeepsFunctions := by
  cases x with
  | error f => cases h
  | ok v =>
    cases h
    exact keeps_value v

/-- A plan that first checks a length and then is an edit. -/
theorem eq_of_checkLength {α : Type} {n : Nat} {e d : α}
    (h : (do checkLength n; return d : Except Fault α) = .ok e) : e = d := by
  obtain ⟨_, _, h⟩ := ok_of_bind h
  cases h
  rfl

theorem keeps_repeated {s : Store} {v : Value} {times : Int64} (h : s.repeated v times = .ok e) :
    e.KeepsFunctions := by
  unfold repeated at h
  split at h
  · exact eq_of_checkLength h ▸ keeps_value _
  · exact eq_of_checkLength h ▸ keeps_newList _
  · exact eq_of_checkLength h ▸ keeps_newTuple _
  · cases h

theorem keeps_joined {s : Store} {a b : Value} (h : s.joined a b = .ok e) :
    e.KeepsFunctions := by
  unfold joined at h
  split at h
  · exact eq_of_checkLength h ▸ keeps_value _
  · exact eq_of_checkLength h ▸ keeps_newList _
  · exact eq_of_checkLength h ▸ keeps_newTuple _
  · split at h <;> cases h

theorem keeps_sequenceOp {s : Store} {op : BinaryOp} {a b : Value}
    (h : s.sequenceOp op a b = .ok e) : e.KeepsFunctions := by
  unfold sequenceOp at h
  cases op <;> simp only at h
  case add => exact keeps_joined h
  case mul =>
    split at h
    · split at h
      · exact keeps_repeated h
      · cases h
    · split at h
      · split at h
        · exact keeps_repeated h
        · cases h
      · cases h
  all_goals cases h

theorem keeps_binary {s : Store} {op : BinaryOp} {a b : Value} (h : s.binary op a b = .ok e) :
    e.KeepsFunctions := by
  unfold binary at h
  split at h
  · exact keeps_map_value h
  · split at h
    · exact keeps_map_value h
    · exact keeps_sequenceOp h

theorem keeps_callMethod {s : Store} {r : ListRef} {m : ListMethod} {args : List Value}
    (h : s.callMethod r m args = .ok e) : e.KeepsFunctions := by
  unfold callMethod at h
  cases m with
  | append =>
    simp only at h
    split at h
    · cases h
      exact fun _ => rfl
    · cases h
  | pop =>
    simp only at h
    split at h
    · cases h
    · obtain ⟨index, -, h⟩ := ok_of_bind h
      cases index with
      | none =>
        cases h
        exact fun _ => rfl
      | some index =>
        obtain ⟨i, -, h⟩ := ok_of_bind h
        cases h
        exact fun _ => rfl

theorem keeps_setItem {s : Store} {o i v : Value} (h : s.setItem o i v = .ok u) :
    u.KeepsFunctions := by
  unfold setItem at h
  split at h
  · obtain ⟨_, -, h⟩ := ok_of_bind h
    cases h
    exact fun _ => rfl
  · cases h

theorem keeps_deleteItem {s : Store} {o i : Value} (h : s.deleteItem o i = .ok u) :
    u.KeepsFunctions := by
  unfold deleteItem at h
  split at h
  · obtain ⟨_, -, h⟩ := ok_of_bind h
    cases h
    exact fun _ => rfl
  · cases h

theorem keeps_setAttribute {o : Value} {attr : String} {v : Value}
    (h : setAttribute o attr v = .ok u) : u.KeepsFunctions := by
  unfold setAttribute at h
  split at h <;> cases h
  exact fun _ => rfl

theorem keeps_deleteAttribute {s : Store} {o : Value} {attr : String}
    (h : s.deleteAttribute o attr = .ok u) : u.KeepsFunctions := by
  unfold deleteAttribute at h
  split at h
  · split at h <;> cases h
    exact fun _ => rfl
  · cases h

theorem keeps_extend {s : Store} {r : ListRef} {items : List Value}
    (h : s.extend r items = .ok u) : u.KeepsFunctions :=
  eq_of_checkLength h ▸ fun _ => rfl

theorem keeps_assign {s : Store} {k : FrameKind} {name : String} {v : Value}
    (h : s.assign k name v = .ok u) : u.KeepsFunctions := by
  unfold assign at h
  split at h <;> cases h
  exact fun _ => rfl

theorem keeps_unassign {s : Store} {k : FrameKind} {name : String}
    (h : s.unassign k name = .ok u) : u.KeepsFunctions := by
  unfold unassign at h
  split at h
  · split at h <;> cases h
    exact fun _ => rfl
  · cases h

end Store

end Footprint
