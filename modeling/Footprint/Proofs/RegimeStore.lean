import Footprint.Proofs.Regime
import Footprint.Store.Datum

set_option autoImplicit false

/-!
What operations on the store come to under a regime: what is read is good, and what is made of good
values is good in a world after.
-/

namespace Footprint

section

variable {σ α β : Type}

/-! ### Plain values -/

theorem isPlain_of_narrow {n : Int} {v : Value} (h : narrow n = .ok v) : v.isPlain = true := by
  unfold narrow at h
  split at h
  · cases h
    rfl
  · cases h

theorem isPlain_of_integerQuotient {a b : Int64} {v : Value} (h : integerQuotient a b = .ok v) :
    v.isPlain = true := by
  unfold integerQuotient at h
  split at h <;> cases h
  rfl

theorem isPlain_of_integerPower {a b : Int64} {v : Value} (h : integerPower a b = .ok v) :
    v.isPlain = true := by
  unfold integerPower at h
  dsimp only at h
  split at h
  · cases h
  · split at h <;> cases h
    rfl

theorem isPlain_of_integerOp {op : BinaryOp} {a b : Int64} {v : Value}
    (h : integerOp op a b = .ok v) : v.isPlain = true := by
  cases op with
  | add | sub | mul => exact isPlain_of_narrow h
  | div | mod =>
    simp only [integerOp] at h
    split at h <;> cases h
    rfl
  | floorDiv =>
    simp only [integerOp] at h
    split at h
    · cases h
    · exact isPlain_of_integerQuotient h
  | pow =>
    simp only [integerOp] at h
    split at h
    · split at h <;> cases h
      rfl
    · exact isPlain_of_integerPower h

theorem isPlain_of_floatOp {op : BinaryOp} {x y : Float} {v : Value}
    (h : floatOp op x y = .ok v) : v.isPlain = true := by
  cases op with
  | add | sub | mul =>
    cases h
    rfl
  | div | floorDiv | mod =>
    simp only [floatOp] at h
    split at h <;> cases h
    rfl
  | pow =>
    simp only [floatOp] at h
    split at h
    · cases h
    · split at h <;> cases h
      rfl

theorem Store.isPlain_of_unary {s : Store} {op : UnaryOp} {a v : Value}
    (h : s.unary op a = .ok v) : v.isPlain = true := by
  unfold unary at h
  cases op with
  | not =>
    cases h
    rfl
  | neg =>
    simp only at h
    split at h
    · cases h
      rfl
    · split at h
      · exact isPlain_of_narrow h
      · cases h
  | pos =>
    simp only at h
    split at h
    · cases h
      rfl
    · split at h <;> cases h
      rfl

/-- A progression that is given as a value is plain. -/
theorem isPlain_of_progression {x : Except Fault Range} {v : Value} (h : (do
      let r ← x
      if r.step = 0 then .error .rangeStepZero else return .range r : Except Fault Value) = .ok v) :
    v.isPlain = true := by
  obtain ⟨r, -, h⟩ := ok_of_bind h
  split at h
  · cases h
  · cases h
    rfl

theorem isPlain_of_makeRange {args : List Value} {v : Value} (h : makeRange args = .ok v) :
    v.isPlain = true := by
  unfold makeRange at h
  obtain ⟨ns, -, h⟩ := ok_of_bind h
  rcases ns with _ | ⟨a, _ | ⟨b, _ | ⟨c, _ | ⟨d, rest⟩⟩⟩⟩
  all_goals exact isPlain_of_progression h

theorem isPlain_of_toInteger {a v : Value} (h : toInteger a = .ok v) : v.isPlain = true := by
  unfold toInteger at h
  split at h
  · split at h
    · cases h
    · dsimp only at h
      split at h <;> cases h
      rfl
  · split at h <;> cases h
    rfl
  · split at h <;> cases h
    rfl

theorem isPlain_of_toFloat {a v : Value} (h : toFloat a = .ok v) : v.isPlain = true := by
  unfold toFloat at h
  split at h
  · split at h <;> cases h
    rfl
  · split at h <;> cases h
    rfl

theorem isPlain_of_magnitude {a v : Value} (h : magnitude a = .ok v) : v.isPlain = true := by
  unfold magnitude at h
  split at h
  · cases h
    rfl
  · split at h
    · exact isPlain_of_narrow h
    · cases h

theorem Constant.isPlain_value (k : Constant) : k.value.isPlain = true := by
  cases k <;> rfl

theorem isPlain_of_builtin? {name : String} {v : Value} (h : builtin? name = some v) :
    v.isPlain = true := by
  unfold builtin? at h
  split at h
  · cases h
    rfl
  · split at h <;> cases h
    rfl

end

namespace Regime

section

variable {σ α β : Type} {R : Regime σ} {env : Setting σ} {c : Code} {w w' : R.World}
  {s : Store} {μ : σ} {v a b : Value}

section

variable (h : R.Kept env)

include h

theorem Kept.globalValue {name : String} (holds : R.holds w s μ)
    (hv : s.globalValue name = .ok v) : R.value w v := by
  unfold Store.globalValue at hv
  split at hv
  · next found =>
    cases hv
    exact h.binding holds found
  · split at hv
    · next found =>
      cases hv
      exact h.plain w (isPlain_of_builtin? found)
    · cases hv

theorem Kept.lookup {r : ScopeRef} {name : String} (holds : R.holds w s μ)
    (hv : s.lookup? r name = some v) : R.value w v := by
  obtain ⟨q, -, found⟩ := List.exists_of_findSome?_eq_some hv
  exact h.binding holds found

theorem Kept.resolve {k : FrameKind} {name : String} (holds : R.holds w s μ)
    (hv : s.resolve k name = .ok v) : R.value w v := by
  unfold Store.resolve at hv
  split at hv
  · exact h.globalValue holds hv
  · split at hv
    · split at hv
      · next found =>
        cases hv
        exact h.binding holds found
      · cases hv
    · split at hv
      · exact h.globalValue holds hv
      · split at hv
        · next found =>
          cases hv
          exact h.lookup holds found
        · exact h.globalValue holds hv
  · split at hv
    · next found =>
      cases hv
      exact h.lookup holds found
    · exact h.globalValue holds hv

theorem Kept.getAttribute {attr : String} (holds : R.holds w s μ) (ha : R.value w a)
    (hv : s.getAttribute a attr = .ok v) : R.value w v := by
  unfold Store.getAttribute at hv
  split at hv
  · split at hv
    · next found =>
      cases hv
      exact h.binding holds found
    · cases hv
  · split at hv <;> cases hv
    exact h.method.2 ha
  · cases hv

theorem Kept.getD {vs : List Value} (hvs : R.values w vs) (i : Nat) :
    R.value w (vs.getD i .none) := by
  rw [List.getD_eq_getElem?_getD]
  cases hi : vs[i]? with
  | none => exact h.plain w rfl
  | some v => exact hvs v (List.mem_of_getElem? hi)

theorem Kept.getItem {r : ListRef} (holds : R.holds w s μ) (hr : R.value w (.list r)) (i : Nat) :
    R.value w ((s.items r).getD i .none) := by
  have good := h.getD (h.items holds hr) i
  rwa [List.getD_eq_getElem?_getD, Array.getElem?_toList, ← Array.getD_eq_getD_getElem?] at good

theorem Kept.subscript (holds : R.holds w s μ) (ha : R.value w a)
    (hv : s.subscript a b = .ok v) : R.value w v := by
  unfold Store.subscript at hv
  split at hv
  · obtain ⟨i, -, hv⟩ := ok_of_bind hv
    cases hv
    exact h.getItem holds ha i
  · obtain ⟨i, -, hv⟩ := ok_of_bind hv
    cases hv
    exact h.getD (h.tuple ha) i
  · obtain ⟨i, -, hv⟩ := ok_of_bind hv
    cases hv
    exact h.plain w rfl
  · obtain ⟨i, -, hv⟩ := ok_of_bind hv
    cases hv
    exact h.plain w rfl
  · cases hv

theorem Kept.iterate {i : Items} (holds : R.holds w s μ) (ha : R.value w a)
    (hi : s.iterate a = .ok i) : R.items w i := by
  unfold Store.iterate at hi
  split at hi
  · cases hi
    exact h.items holds ha
  · cases hi
    exact h.tuple ha
  · cases hi
    intro v hv
    obtain ⟨ch, -, rfl⟩ := List.mem_map.1 hv
    exact h.plain w rfl
  · cases hi
    trivial
  · cases hi

theorem Kept.next {i rest : Items} (hi : R.items w i) (hv : i.next? = some (v, rest)) :
    R.value w v ∧ R.items w rest := by
  cases i with
  | values vs =>
    cases vs with
    | nil => cases hv
    | cons u us =>
      cases hv
      exact List.forall_mem_cons.1 hi
  | progression r =>
    obtain ⟨⟨n, q⟩, -, same⟩ := Option.map_eq_some_iff.1 hv
    cases same
    exact ⟨h.plain w rfl, trivial⟩

theorem Kept.take {i : Items} (hi : R.items w i) (n : Nat) : R.values w (i.take n) := by
  induction n generalizing i with
  | zero => exact fun v hv => absurd hv List.not_mem_nil
  | succ n ih =>
    unfold Items.take
    split
    · next v rest hv =>
      obtain ⟨first, others⟩ := h.next hi hv
      exact List.forall_mem_cons.2 ⟨first, ih others⟩
    · exact fun v hv => absurd hv List.not_mem_nil

theorem Kept.unpacked {i : Items} {n : Nat} {vs : List Value} (hi : R.items w i)
    (hvs : Store.unpacked n i = .ok vs) : R.values w vs := by
  unfold Store.unpacked at hvs
  dsimp only at hvs
  split at hvs
  · cases hvs
  · split at hvs <;> cases hvs
    exact h.take hi _

/-! ### Changes of the store -/

theorem Kept.give (holds : R.holds w s μ) (hv : R.value w v) :
    R.Grants w s μ (Edit.value v) R.value := ⟨w, h.refl w, holds, hv⟩

theorem Kept.plainly {x : Except Fault Value} {e : Edit Value} (holds : R.holds w s μ)
    (plain : ∀ v, x = .ok v → v.isPlain = true) (he : x.map Edit.value = .ok e) :
    R.Grants w s μ e R.value := by
  cases x with
  | error f => cases he
  | ok v =>
    cases he
    exact h.give holds (h.plain w (plain v rfl))

omit h in
theorem values_flatten_replicate {vs : List Value} (hvs : R.values w vs) (n : Nat) :
    R.values w (List.replicate n vs).flatten := by
  intro v hv
  obtain ⟨l, hl, hv⟩ := List.mem_flatten.1 hv
  exact hvs v ((List.mem_replicate.1 hl).2 ▸ hv)

omit h in
theorem values_repeat {vs : Array Value} (hvs : R.values w vs.toList) (n : Nat) :
    R.values w (n.repeat (· ++ vs) #[]).toList := by
  induction n with
  | zero => exact fun v hv => absurd hv List.not_mem_nil
  | succ n ih =>
    intro v hv
    rw [Nat.repeat, Array.toList_append] at hv
    rcases List.mem_append.1 hv with old | new
    · exact ih v old
    · exact hvs v new

theorem Kept.repeated {e : Edit Value} {times : Int64} (holds : R.holds w s μ) (ha : R.value w a)
    (he : s.repeated a times = .ok e) : R.Grants w s μ e R.value := by
  unfold Store.repeated at he
  split at he
  · exact Store.eq_of_checkLength he ▸ h.give holds (h.plain w rfl)
  · exact Store.eq_of_checkLength he ▸ h.newList holds (values_repeat (h.items holds ha) _)
  · exact Store.eq_of_checkLength he ▸
      h.newTuple holds (values_flatten_replicate (h.tuple ha) _)
  · cases he

theorem Kept.joined {e : Edit Value} (holds : R.holds w s μ) (ha : R.value w a) (hb : R.value w b)
    (he : s.joined a b = .ok e) : R.Grants w s μ e R.value := by
  have both {us vs : List Value} (hus : R.values w us) (hvs : R.values w vs) :
      R.values w (us ++ vs) := fun v hv => (List.mem_append.1 hv).elim (hus v) (hvs v)
  unfold Store.joined at he
  split at he
  · exact Store.eq_of_checkLength he ▸ h.give holds (h.plain w rfl)
  · refine Store.eq_of_checkLength he ▸ h.newList holds ?_
    rw [Array.toList_append]
    exact both (h.items holds ha) (h.items holds hb)
  · exact Store.eq_of_checkLength he ▸ h.newTuple holds (both (h.tuple ha) (h.tuple hb))
  · split at he <;> cases he

theorem Kept.sequenceOp {op : BinaryOp} {e : Edit Value} (holds : R.holds w s μ)
    (ha : R.value w a) (hb : R.value w b) (he : s.sequenceOp op a b = .ok e) :
    R.Grants w s μ e R.value := by
  unfold Store.sequenceOp at he
  cases op <;> simp only at he
  case add => exact h.joined holds ha hb he
  case mul =>
    split at he
    · split at he
      · exact h.repeated holds ha he
      · cases he
    · split at he
      · split at he
        · exact h.repeated holds hb he
        · cases he
      · cases he
  all_goals cases he

theorem Kept.binary {op : BinaryOp} {e : Edit Value} (holds : R.holds w s μ) (ha : R.value w a)
    (hb : R.value w b) (he : s.binary op a b = .ok e) : R.Grants w s μ e R.value := by
  unfold Store.binary at he
  split at he
  · exact h.plainly holds (fun _ => isPlain_of_integerOp) he
  · split at he
    · exact h.plainly holds (fun _ => isPlain_of_floatOp) he
    · exact h.sequenceOp holds ha hb he

theorem Kept.modifyList {r : ListRef} (f : Array Value → Array Value) (holds : R.holds w s μ)
    (hr : R.value w (.list r)) (hf : R.values w (f (s.items r)).toList) :
    ∃ w', R.le w w' ∧ R.holds w' (s.modifyList r f) μ := by
  rw [Store.modifyList_eq]
  exact h.setItems holds hr hf

omit h in
theorem values_set {items : Array Value} (hi : R.values w items.toList) (hv : R.value w v)
    (i : Nat) : R.values w (items.setIfInBounds i v).toList := by
  intro u hu
  rw [Array.toList_setIfInBounds] at hu
  rcases List.mem_or_eq_of_mem_set hu with old | rfl
  · exact hi u old
  · exact hv

omit h in
theorem values_erase {items : Array Value} (hi : R.values w items.toList) (i : Nat) :
    R.values w (items.eraseIdxIfInBounds i).toList := by
  intro u hu
  rw [Array.toList_eraseIdxIfInBounds] at hu
  exact hi u (List.mem_of_mem_eraseIdx hu)

theorem Kept.callMethod {r : ListRef} {m : ListMethod} {args : List Value} {e : Edit Value}
    (holds : R.holds w s μ) (hr : R.value w (.list r)) (hargs : R.values w args)
    (he : s.callMethod r m args = .ok e) : R.Grants w s μ e R.value := by
  have items := h.items holds hr
  have popped (i : Nat) : R.Grants w s μ (fun t => ((s.items r).getD i .none,
      t.modifyList r (·.eraseIdxIfInBounds i))) R.value := by
    obtain ⟨u, hu, later⟩ := h.modifyList (·.eraseIdxIfInBounds i) holds hr (values_erase items i)
    exact ⟨u, hu, later, h.value_mono hu (h.getItem holds hr i)⟩
  unfold Store.callMethod at he
  cases m with
  | append =>
    simp only at he
    split at he
    · next v =>
      cases he
      have grown : R.values w ((s.items r).push v).toList := by
        rw [Array.toList_push]
        exact fun u hu => (List.mem_append.1 hu).elim (items u) (hargs u)
      obtain ⟨u, hu, later⟩ := h.modifyList (·.push v) holds hr grown
      exact ⟨u, hu, later, h.plain u rfl⟩
    · cases he
  | pop =>
    simp only at he
    split at he
    · cases he
    · obtain ⟨index, -, he⟩ := ok_of_bind he
      cases index with
      | none =>
        cases he
        exact popped _
      | some index =>
        obtain ⟨i, -, he⟩ := ok_of_bind he
        cases he
        exact popped i

theorem Kept.setItem {e : Edit Unit} (holds : R.holds w s μ) (ha : R.value w a)
    (hv : R.value w v) (he : s.setItem a b v = .ok e) : R.Grants w s μ e R.any := by
  unfold Store.setItem at he
  split at he
  · obtain ⟨i, -, he⟩ := ok_of_bind he
    cases he
    obtain ⟨u, hu, later⟩ := h.modifyList (·.setIfInBounds i v) holds ha
      (values_set (h.items holds ha) hv i)
    exact ⟨u, hu, later, trivial⟩
  · cases he

theorem Kept.deleteItem {e : Edit Unit} (holds : R.holds w s μ) (ha : R.value w a)
    (he : s.deleteItem a b = .ok e) : R.Grants w s μ e R.any := by
  unfold Store.deleteItem at he
  split at he
  · obtain ⟨i, -, he⟩ := ok_of_bind he
    cases he
    obtain ⟨u, hu, later⟩ := h.modifyList (·.eraseIdxIfInBounds i) holds ha
      (values_erase (h.items holds ha) i)
    exact ⟨u, hu, later, trivial⟩
  · cases he

theorem Kept.extend {r : ListRef} {vs : List Value} {e : Edit Unit} (holds : R.holds w s μ)
    (hr : R.value w (.list r)) (hvs : R.values w vs) (he : s.extend r vs = .ok e) :
    R.Grants w s μ e R.any := by
  obtain rfl := Store.eq_of_checkLength he
  have grown : R.values w (s.items r ++ vs).toList := by
    rw [Array.toList_appendList]
    exact fun u hu => (List.mem_append.1 hu).elim (h.items holds hr u) (hvs u)
  obtain ⟨u, hu, later⟩ := h.modifyList (· ++ vs) holds hr grown
  exact ⟨u, hu, later, trivial⟩

theorem Kept.setAttr {attr : String} {e : Edit Unit} (holds : R.holds w s μ) (ha : R.value w a)
    (hv : R.value w v) (he : Store.setAttribute a attr v = .ok e) : R.Grants w s μ e R.any := by
  unfold Store.setAttribute at he
  split at he <;> cases he
  obtain ⟨u, hu, later⟩ := h.setAttribute holds ha hv
  exact ⟨u, hu, later, trivial⟩

theorem Kept.deleteAttr {attr : String} {e : Edit Unit} (holds : R.holds w s μ)
    (ha : R.value w a) (he : s.deleteAttribute a attr = .ok e) : R.Grants w s μ e R.any := by
  unfold Store.deleteAttribute at he
  split at he
  · split at he <;> cases he
    obtain ⟨u, hu, later⟩ := h.eraseAttribute holds ha
    exact ⟨u, hu, later, trivial⟩
  · cases he

/-! ### Values from outside -/

mutual

theorem Kept.make {w : R.World} {s : Store} (d : Datum) (holds : R.holds w s μ) :
    R.Grants w s μ d.make R.value :=
  match d with
  | .none | .bool _ | .int _ | .float _ | .str _ | .range _ | .builtin _ | .exceptionType _ =>
    h.give holds (h.plain w rfl)
  | .list items => by
    obtain ⟨u, later, made, good⟩ := Kept.makeAll items holds
    have listed : R.values u (Datum.makeAll items s).1.toArray.toList := good
    obtain ⟨u', later', held, value⟩ := h.newList made listed
    exact ⟨u', h.trans later later', held, value⟩
  | .tuple items => by
    obtain ⟨u, later, made, good⟩ := Kept.makeAll items holds
    obtain ⟨u', later', held, value⟩ := h.newTuple made good
    exact ⟨u', h.trans later later', held, value⟩
  | .exception kind message => h.newException kind message holds

theorem Kept.makeAll {w : R.World} {s : Store} (ds : List Datum) (holds : R.holds w s μ) :
    R.Grants w s μ (Datum.makeAll ds) R.values :=
  match ds with
  | [] => ⟨w, h.refl w, holds, fun v hv => absurd hv List.not_mem_nil⟩
  | d :: ds => by
    obtain ⟨u, later, made, first⟩ := Kept.make d holds
    obtain ⟨u', later', held, others⟩ := Kept.makeAll ds made
    exact ⟨u', h.trans later later', held,
      List.forall_mem_cons.2 ⟨h.value_mono later' first, others⟩⟩

end

end

end

end Regime

end Footprint
