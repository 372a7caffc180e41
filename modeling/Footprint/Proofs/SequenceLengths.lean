import Footprint.Proofs.ListChanges
import Mathlib.Data.String.Basic

set_option autoImplicit false

/-!
Concatenation and repetition. Their results have the elements they should and leave the operands as
they are; with any number of repetitions, what would get too long is refused. How long it gets is
counted in elements for lists and tuples but in bytes for strings, so a string with characters
outside ASCII is refused before it has as many characters as a list may have items.
-/

namespace Footprint

/-! ### Repetition -/

section

variable {α : Type}

theorem length_flatten_replicate (n : Nat) (xs : List α) :
    (List.replicate n xs).flatten.length = n * xs.length := by
  simp

theorem getElem?_flatten_replicate {n k : Nat} {xs : List α} (h : k < n * xs.length) :
    (List.replicate n xs).flatten[k]? = xs[k % xs.length]? := by
  induction n generalizing k with
  | zero => omega
  | succ n ih =>
    rw [List.replicate_succ, List.flatten_cons]
    by_cases first : k < xs.length
    · rw [List.getElem?_append_left first, Nat.mod_eq_of_lt first]
    · have le := Nat.not_lt.1 first
      rw [Nat.succ_mul] at h
      rw [List.getElem?_append_right le, ih (by omega), ← Nat.mod_eq_sub_mod le]

theorem toList_repeat (n : Nat) (xs : Array α) :
    (n.repeat (· ++ xs) #[]).toList = (List.replicate n xs.toList).flatten := by
  induction n with
  | zero => rfl
  | succ n ih =>
    rw [Nat.repeat, Array.toList_append, ih, List.replicate_succ']
    simp

end

theorem toList_repeat_str (n : Nat) (t : String) :
    (n.repeat (· ++ t) "").toList = (List.replicate n t.toList).flatten := by
  induction n with
  | zero => simp [Nat.repeat]
  | succ n ih =>
    rw [Nat.repeat, String.toList_append, ih, List.replicate_succ']
    simp

theorem utf8ByteSize_repeat (n : Nat) (t : String) :
    (n.repeat (· ++ t) "").utf8ByteSize = n * t.utf8ByteSize := by
  induction n with
  | zero => simp [Nat.repeat]
  | succ n ih => rw [Nat.repeat, String.utf8ByteSize_append, ih, Nat.succ_mul]

/-- What is empty has no need of rounds. -/
theorem rounds_mul (size : Nat) (times : Int64) :
    rounds size times * size = times.toInt.toNat * size := by
  unfold rounds
  split
  · next empty => rw [empty, Nat.mul_zero, Nat.mul_zero]
  · rfl

theorem flatten_replicate_rounds {α : Type} {size : Nat} {xs : List α} (empty : size = 0 → xs = [])
    (times : Int64) : (List.replicate (rounds size times) xs).flatten =
      (List.replicate times.toInt.toNat xs).flatten := by
  unfold rounds
  split
  · next none =>
    rw [empty none]
    simp
  · rfl

/-! ### Bytes and characters -/

theorem length_le_utf8Len (cs : List Char) : cs.length ≤ String.utf8Len cs := by
  induction cs with
  | nil => exact Nat.zero_le _
  | cons c cs ih =>
    have one := c.utf8Size_pos
    rw [String.utf8Len_cons, List.length_cons]
    omega

theorem utf8Len_eq_length {cs : List Char} (ascii : ∀ c ∈ cs, c.val ≤ 127) :
    String.utf8Len cs = cs.length := by
  induction cs with
  | nil => rfl
  | cons c cs ih =>
    rw [String.utf8Len_cons, List.length_cons, ih fun d hd => ascii d (List.mem_cons_of_mem _ hd),
      Char.utf8Size_eq_one_iff.2 (ascii c List.mem_cons_self)]

namespace Store

/-- The elements of a string, of a tuple, or of a list in the store. -/
def sequence? (s : Store) : Value → Option (List Value)
  | .str t => some (t.toList.map fun c => .str c.toString)
  | .tuple _ items => some items
  | .list r => s.lists[r.index]?.map Array.toList
  | _ => none

/-- What a sequence is measured by: a string by its bytes, all others by their elements. -/
def extent (s : Store) : Value → Nat
  | .str t => t.utf8ByteSize
  | v => ((s.sequence? v).getD []).length

variable {s : Store} {v : Value} {vs : List Value}

theorem length_le_extent (h : s.sequence? v = some vs) : vs.length ≤ s.extent v := by
  unfold extent
  split
  · next t =>
    cases h
    rw [List.length_map, ← String.ofList_toList (s := t), String.utf8ByteSize_ofList]
    simpa using length_le_utf8Len t.toList
  · rw [h, Option.getD_some]

/-- Bytes are characters in ASCII. -/
theorem extent_eq_length (h : s.sequence? v = some vs)
    (ascii : ∀ t : String, v = .str t → ∀ c ∈ t.toList, c.val ≤ 127) : s.extent v = vs.length := by
  unfold extent
  split
  · next t =>
    cases h
    rw [List.length_map, ← utf8Len_eq_length (ascii t rfl), ← String.utf8ByteSize_ofList,
      String.ofList_toList]
  · rw [h, Option.getD_some]

theorem items_of_sequence? {r : ListRef} (h : s.sequence? (.list r) = some vs) :
    (s.items r).toList = vs := by
  obtain ⟨items, found, rfl⟩ := Option.map_eq_some_iff.1 h
  rw [Store.items, found, Option.getD_some]

end Store

/-! ### What operators make -/

/-- A sequence with these elements and of this extent has been made: a new one, and what the store
held before it holds still. -/
structure Store.Made (s : Store) (size : Nat) (vs : List Value) (v : Value) (s' : Store) :
    Prop where
  elements : s'.sequence? v = some vs
  extent : s'.extent v = size
  fresh : ∀ r, v = .list r → s.lists[r.index]? = none
  kept : ∀ w ws, s.sequence? w = some ws → s'.sequence? w = some ws
  functions : s'.functions = s.functions
  scopes : s'.scopes = s.scopes

namespace Store

variable {s : Store} {size : Nat} {vs : List Value}

theorem made_str (t : String) :
    s.Made t.utf8ByteSize (t.toList.map fun c => .str c.toString) (.str t) s where
  elements := rfl
  extent := rfl
  fresh r h := by cases h
  kept w ws h := h
  functions := rfl
  scopes := rfl

theorem made_newTuple (items : List Value) :
    s.Made items.length items (newTuple items s).1 (newTuple items s).2 where
  elements := rfl
  extent := rfl
  fresh r h := by cases h
  kept w ws h := by cases w <;> exact h
  functions := rfl
  scopes := rfl

theorem made_newList (items : Array Value) (h : items.toList = vs) :
    s.Made vs.length vs (newList items s).1 (newList items s).2 := by
  have found : (newList items s).2.sequence? (newList items s).1 = some vs := by
    simp [newList, sequence?, h]
  refine ⟨found, ?_, ?_, ?_, rfl, rfl⟩
  · change (((newList items s).2.sequence? (newList items s).1).getD []).length = _
    rw [found, Option.getD_some]
  · intro r h
    cases h
    exact Array.getElem?_eq_none (Nat.le_refl _)
  · intro w ws h
    cases w with
    | list r =>
      obtain ⟨before, found, rfl⟩ := Option.map_eq_some_iff.1 h
      obtain ⟨inside, -⟩ := Array.getElem?_eq_some_iff.1 found
      have same : (s.lists.push items)[r.index]? = some before := by
        rw [Array.getElem?_push_lt inside, ← Array.getElem?_eq_getElem inside, found]
      exact congrArg (Option.map Array.toList) same
    | _ => exact h

end Store

/-! ### Operators on sequences -/

namespace Store

variable {s : Store} {a b times : Value} {xs ys : List Value} {n : Int64}

theorem extent_list {r : ListRef} (h : s.sequence? (.list r) = some xs) :
    s.extent (.list r) = xs.length := by
  change ((s.sequence? (.list r)).getD []).length = _
  rw [h, Option.getD_some]

/-- Sequences of one type are both strings, both tuples or both lists. -/
theorem alike_cases (ha : s.sequence? a = some xs) (hb : s.sequence? b = some ys)
    (alike : a.typeName = b.typeName) :
    (∃ t u, a = .str t ∧ b = .str u) ∨ (∃ i j, a = .tuple i xs ∧ b = .tuple j ys) ∨
      ∃ r q, a = .list r ∧ b = .list q := by
  cases a with
  | str t =>
    cases b with
    | str u => exact .inl ⟨t, u, rfl, rfl⟩
    | list | tuple => exact absurd alike (by simp [Value.typeName])
    | _ => cases hb
  | tuple i items =>
    cases b with
    | tuple j others =>
      cases ha
      cases hb
      exact .inr (.inl ⟨i, j, rfl, rfl⟩)
    | str | list => exact absurd alike (by simp [Value.typeName])
    | _ => cases hb
  | list r =>
    cases b with
    | list q => exact .inr (.inr ⟨r, q, rfl, rfl⟩)
    | str | tuple => exact absurd alike (by simp [Value.typeName])
    | _ => cases hb
  | _ => cases ha

theorem no_number_of_sequence? (h : s.sequence? a = some xs) :
    a.asInt? = none ∧ a.asFloat? = none ∧ a.isSequence = true := by
  cases a <;> first | exact ⟨rfl, rfl, rfl⟩ | cases h

theorem binary_of_sequence? (h : s.sequence? a = some xs) (op : BinaryOp) (b : Value) :
    s.binary op a b = s.sequenceOp op a b ∧ s.binary op b a = s.sequenceOp op b a := by
  obtain ⟨noInt, noFloat, -⟩ := no_number_of_sequence? h
  unfold binary
  rw [noInt, noFloat]
  constructor
  · rfl
  · cases b.asInt? <;> cases b.asFloat? <;> rfl

theorem binary_mul (h : s.sequence? a = some xs) (hn : times.asInt? = some n) :
    s.binary .mul a times = s.repeated a n ∧ s.binary .mul times a = s.repeated a n := by
  obtain ⟨-, -, sequence⟩ := no_number_of_sequence? h
  have number : times.isSequence = false := by
    cases times <;> first | rfl | cases hn
  obtain ⟨left, right⟩ := binary_of_sequence? h .mul times
  rw [left, right]
  simp only [sequenceOp, sequence, number, hn]
  exact ⟨rfl, rfl⟩

theorem lengthOf_of_sequence? (h : s.sequence? a = some xs) : s.lengthOf a = .ok xs.length := by
  cases a with
  | str t =>
    cases h
    rw [lengthOf, List.length_map, String.length_toList]
  | list r =>
    rw [← items_of_sequence? h]
    rfl
  | tuple => cases h; rfl
  | _ => cases h

end Store

namespace Setting

variable {σ : Type} {env : Setting σ} {m : Machine σ} {p : Position}

open Footprint.Action

/-- A sequence that is not too long has been made, and `len` counts its elements; or memory has run
out, as the sequence would have been too long, and nothing has changed. -/
inductive Makes (env : Setting σ) (m : Machine σ) (type : String) (size : Nat)
    (vs : List Value) : Ending σ Value → Prop
  | made (v : Value) (s : Store) (alike : v.typeName = type) (short : size ≤ maxLength)
      (made : m.store.Made size vs v s)
      (counted : ∀ p, ∃ n : Int64, n.toInt = vs.length ∧
        env.callBuiltin .len [v] p { m with store := s } = .done (.int n) { m with store := s }) :
    Makes env m type size vs (.done v { m with store := s })
  | refused (f : Failure) (long : maxLength < size) (reason : f.kind? = some "MemoryError") :
    Makes env m type size vs (.failed f m)

theorem callBuiltin_len {v : Value} {vs : List Value} (h : m.store.sequence? v = some vs) :
    env.callBuiltin .len [v] p m = .done (.int (.ofNat vs.length)) m := by
  simp only [callBuiltin, bind_apply, exactlyOne, lift, readAt, observe, Except.mapError,
    Store.lengthOf_of_sequence? h]
  rfl

/-- What has been planned is done if the sequence gets no longer than it may. -/
theorem makes_checked {plan : Store → Except Fault (Edit Value)} {e : Edit Value} {size : Nat}
    {type : String} {vs : List Value} (plans : plan m.store = (do checkLength size; return e))
    (alike : (e m.store).1.typeName = type)
    (made : m.store.Made size vs (e m.store).1 (e m.store).2) :
    env.Makes m type size vs (editAt p plan m) := by
  unfold editAt
  rw [plans]
  rcases Nat.lt_or_ge maxLength size with long | short
  · rw [checkLength_of_lt long]
    exact .refused _ long rfl
  · rw [checkLength_of_le short]
    refine .made _ _ alike short made fun q =>
      ⟨_, Int64.toInt_ofNat_of_lt ?_, callBuiltin_len made.elements⟩
    have le := Store.length_le_extent made.elements
    rw [made.extent] at le
    exact (Nat.le_trans le short).trans_lt (by decide)

variable {a b times : Value} {xs ys : List Value} {n : Int64}

theorem makes_joined (ha : m.store.sequence? a = some xs) (hb : m.store.sequence? b = some ys)
    (alike : a.typeName = b.typeName) :
    env.Makes m a.typeName (m.store.extent a + m.store.extent b) (xs ++ ys)
      (editAt p (·.binary .add a b) m) := by
  have joins : m.store.binary .add a b = m.store.joined a b :=
    (Store.binary_of_sequence? ha .add b).1
  obtain ⟨t, u, rfl, rfl⟩ | ⟨i, j, rfl, rfl⟩ | ⟨r, q, rfl, rfl⟩ := Store.alike_cases ha hb alike
  · refine makes_checked joins rfl ?_
    have made := m.store.made_str (t ++ u)
    rw [String.utf8ByteSize_append, String.toList_append, List.map_append] at made
    cases ha
    cases hb
    exact made
  · refine makes_checked joins rfl ?_
    have made := m.store.made_newTuple (xs ++ ys)
    rw [List.length_append] at made
    exact made
  · have all : (m.store.items r ++ m.store.items q).toList = xs ++ ys := by
      rw [Array.toList_append, Store.items_of_sequence? ha, Store.items_of_sequence? hb]
    have made := Store.made_newList (s := m.store) _ all
    have size : m.store.extent (.list r) + m.store.extent (.list q) = (xs ++ ys).length := by
      rw [Store.extent_list ha, Store.extent_list hb, List.length_append]
    rw [size, ← all]
    rw [← all] at made
    exact makes_checked joins rfl made

theorem makes_repeated (ha : m.store.sequence? a = some xs)
    {plan : Store → Except Fault (Edit Value)} (plans : plan m.store = m.store.repeated a n) :
    env.Makes m a.typeName (n.toInt.toNat * m.store.extent a)
      (List.replicate n.toInt.toNat xs).flatten (editAt p plan m) := by
  have none : m.store.extent a = 0 → xs = [] := fun none =>
    List.length_eq_zero_iff.1 (Nat.le_zero.1 (none ▸ Store.length_le_extent ha))
  rw [← rounds_mul, ← flatten_replicate_rounds none]
  cases a with
  | str t =>
    cases ha
    have made := m.store.made_str ((rounds t.utf8ByteSize n).repeat (· ++ t) "")
    rw [utf8ByteSize_repeat, toList_repeat_str, List.map_flatten, List.map_replicate] at made
    rw [Nat.mul_comm] at made ⊢
    exact makes_checked plans rfl made
  | tuple i items =>
    cases ha
    have made := m.store.made_newTuple (List.replicate (rounds xs.length n) xs).flatten
    rw [length_flatten_replicate, Nat.mul_comm] at made
    rw [Nat.mul_comm]
    exact makes_checked plans rfl made
  | list r =>
    have items := Store.items_of_sequence? ha
    have size : (m.store.items r).size = xs.length := by rw [← Array.length_toList, items]
    rw [Store.extent_list ha]
    have made := Store.made_newList (s := m.store)
      ((rounds xs.length n).repeat (· ++ m.store.items r) #[])
      ((toList_repeat _ _).trans (by rw [items]))
    rw [length_flatten_replicate, Nat.mul_comm] at made
    rw [← size] at made ⊢
    rw [Nat.mul_comm]
    exact makes_checked plans rfl made
  | _ => cases ha

/-- A string, a tuple or a list is joined to another one of its type, or repeated with the number on
either side, if the sequence of these elements gets no longer than allowed: in bytes for strings,
otherwise in elements, which comes to the same in ASCII. If not, memory runs out. -/
theorem sequences_made (env : Setting σ) (p : Position) (m : Machine σ)
    (ha : m.store.sequence? a = some xs) :
    (∀ (b : Value) (ys : List Value), m.store.sequence? b = some ys → a.typeName = b.typeName →
      env.Makes m a.typeName (m.store.extent a + m.store.extent b) (xs ++ ys)
        (editAt p (·.binary .add a b) m)) ∧
    (∀ (times : Value) (n : Int64), times.asInt? = some n → ∃ vs : List Value,
      (vs.length : Int) = max n.toInt 0 * xs.length ∧
      (∀ k < vs.length, vs[k]? = xs[k % xs.length]?) ∧
      env.Makes m a.typeName (n.toInt.toNat * m.store.extent a) vs
        (editAt p (·.binary .mul a times) m) ∧
      env.Makes m a.typeName (n.toInt.toNat * m.store.extent a) vs
        (editAt p (·.binary .mul times a) m)) ∧
    xs.length ≤ m.store.extent a ∧
    ((∀ t : String, a = .str t → ∀ c ∈ t.toList, c.val ≤ 127) →
      m.store.extent a = xs.length) := by
  refine ⟨fun b ys hb alike => makes_joined ha hb alike, fun times n hn => ?_,
    Store.length_le_extent ha, Store.extent_eq_length ha⟩
  obtain ⟨left, right⟩ := Store.binary_mul ha hn
  have length := length_flatten_replicate n.toInt.toNat xs
  refine ⟨_, ?_, ?_, makes_repeated ha left, makes_repeated ha right⟩
  · rw [length, Nat.cast_mul, Int.toNat_eq_max]
  · intro k hk
    rw [length] at hk
    exact getElem?_flatten_replicate hk

/-- A list of one item, joined to itself and repeated three times. -/
theorem sequences_made_list :
    let env : Setting Unit := ⟨.default, .steady, none⟩
    let m : Machine Unit :=
      { Machine.initial () with store := { Store.empty with lists := #[#[.int 1]] } }
    m.store.sequence? (.list ⟨0⟩) = some [.int 1] ∧
      env.Makes m "list" 2 [.int 1, .int 1]
        (editAt .start (·.binary .add (.list ⟨0⟩) (.list ⟨0⟩)) m) ∧
      ∃ vs : List Value, vs.length = 3 ∧
        env.Makes m "list" 3 vs (editAt .start (·.binary .mul (.int 3) (.list ⟨0⟩)) m) := by
  intro env m
  have elements : m.store.sequence? (.list ⟨0⟩) = some [.int 1] := rfl
  have spec := sequences_made env .start m elements
  refine ⟨elements, spec.1 _ _ elements rfl, ?_⟩
  obtain ⟨vs, length, -, -, made⟩ := spec.2.1 (.int 3) 3 rfl
  exact ⟨vs, Nat.cast_injective length, made⟩

/-- Six million characters are fewer than a sequence may have, but not if they have two bytes. -/
theorem repetition_refused_by_bytes :
    Store.empty.sequence? (.str "é") = some [.str "é"] ∧
      (6000000 : Int64).toInt.toNat * [Value.str "é"].length ≤ maxLength ∧
      Store.empty.binary .mul (.str "é") (.int 6000000) = .error .tooLong ∧
      Fault.kind? .tooLong = some "MemoryError" :=
  ⟨rfl, by decide, rfl, rfl⟩

end Setting

end Footprint
