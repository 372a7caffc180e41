import Footprint.Machine.Builtin
import Footprint.Proofs.Progressions

set_option autoImplicit false

/-!
Going through values. Lists, tuples, texts and progressions have elements, and a loop over one of
them takes just these, one after the other. Loops that only read the store leave everything as it
is but the readings of the clock, with which the deadline is checked.
-/

namespace Footprint

namespace Items

variable {i rest : Items} {v : Value} {vs : List Value}

theorem yields_values (vs : List Value) : (Items.values vs).Yields vs := by
  induction vs with
  | nil => exact .done rfl
  | cons v vs ih => exact .more rfl ih

/-- What gives a value and then stands where it stood does not end. -/
theorem Yields.next?_ne (h : i.Yields vs) (v : Value) : i.next? ≠ some (v, i) := by
  induction h with
  | done none => simp [none]
  | more next _ ih =>
    intro same
    obtain ⟨rfl, rfl⟩ := Prod.mk.inj (Option.some_inj.1 (next.symm.trans same))
    exact ih same

end Items

namespace Range

variable {r rest : Range} {n : Int64}

/-- With a step of zero a progression would stand still. -/
theorem eq_of_next?_of_zero (zero : r.step = 0) (h : r.next? = some (n, rest)) : rest = r := by
  by_cases before : r.IsBefore r.start.toInt
  · obtain ⟨after, next, step, stop, start⟩ := next?_of_before before
    obtain rfl := (Prod.mk.inj (Option.some_inj.1 (h.symm.trans next))).2
    rw [zero, Int64.toInt_zero, Int.add_zero] at start
    have start := start.resolve_right fun outside => outside.1 ⟨r.start.le_toInt, r.start.toInt_lt⟩
    cases rest
    cases r
    simp_all [Int64.toInt_inj]
  · rw [next?_of_not_before before] at h
    cases h

theorem length_of_next? (nonzero : r.step ≠ 0) (h : r.next? = some (n, rest)) :
    r.length = rest.length + 1 := by
  have first : 0 < r.length := by
    rw [lt_length_iff nonzero, Nat.cast_zero, Int.zero_mul, Int.add_zero]
    by_contra outside
    rw [next?_of_not_before outside] at h
    cases h
  obtain ⟨k, length⟩ := Nat.exists_eq_add_one.2 first
  obtain ⟨rest', next, -, length', -⟩ := tail_of_next? nonzero length
  obtain rfl := (Prod.mk.inj (Option.some_inj.1 (h.symm.trans next))).2
  rw [length, length']

end Range

namespace Items

variable {i : Items} {vs : List Value}

/-- The bound that loops set themselves leaves no value out. -/
theorem Yields.length_le (h : i.Yields vs) : vs.length ≤ i.length := by
  induction h with
  | done => exact Nat.zero_le _
  | @more i rest v vs next others ih =>
    cases i with
    | values ws =>
      cases ws <;> cases next
      exact Nat.succ_le_succ ih
    | progression r =>
      obtain ⟨⟨n, after⟩, first, pair⟩ := Option.map_eq_some_iff.1 next
      obtain ⟨rfl, rfl⟩ := Prod.mk.inj pair
      by_cases zero : r.step = 0
      · obtain rfl := Range.eq_of_next?_of_zero zero first
        exact absurd next (others.next?_ne _)
      · exact (Nat.succ_le_succ ih).trans (Range.length_of_next? zero first).ge

theorem Yields.fold_eq {m : Type → Type} [Monad m] {α : Type} (h : i.Yields vs)
    (step : α → Value → m α) (a : α) : i.fold step a = vs.foldlM step a :=
  h.foldUpTo_eq step h.length_le a

end Items

namespace Store

/-- The elements of what can be gone through. A progression with a step of zero is never made. -/
def elements? (s : Store) : Value → Option (List Value)
  | .list r => some (s.items r).toList
  | .tuple _ items => some items
  | .str t => some (t.toList.map fun c => .str c.toString)
  | .range r => if r.step = 0 then none else some (r.toList.map .int)
  | _ => none

variable {s : Store} {v : Value} {vs : List Value}

theorem exists_yields (h : s.elements? v = some vs) :
    ∃ items, s.iterate v = .ok items ∧ items.Yields vs := by
  unfold elements? at h
  split at h
  · cases h
    exact ⟨_, rfl, Items.yields_values _⟩
  · cases h
    exact ⟨_, rfl, Items.yields_values _⟩
  · cases h
    exact ⟨_, rfl, Items.yields_values _⟩
  · next r =>
    split at h
    · cases h
    · next nonzero =>
      cases h
      exact ⟨_, rfl, Range.yields_toList nonzero⟩
  · cases h

end Store

/-! ### Loops that only read -/

namespace Setting

variable {σ α β : Type} {env : Setting σ} {m : Machine σ} {a : α}

/-- A value is given unless the deadline is missed first; only the clock has been read. -/
inductive Timely (env : Setting σ) (m : Machine σ) (a : α) : Ending σ α → Prop
  | inTime (timer : Timer) : Timely env m a (.done a { m with timer })
  | late (timer : Timer) (missed : Overrun) (limited : env.limits.deadline ≠ none) :
      Timely env m a (.failed (.deadline missed) { m with timer })

theorem timely_checkDeadline (env : Setting σ) (m : Machine σ) :
    env.Timely m () (env.checkDeadline m) := by
  unfold checkDeadline
  split
  · exact .inTime m.timer
  · next ms limited =>
    have limited : env.limits.deadline ≠ none := by simp [limited]
    dsimp only
    split
    · exact .late _ _ limited
    · exact .inTime _

theorem Timely.earlier {timer : Timer} {e : Ending σ α} (h : env.Timely { m with timer } a e) :
    env.Timely m a e := by
  cases h with
  | inTime timer => exact .inTime timer
  | late timer missed limited => exact .late timer missed limited

theorem Timely.bind {x : Action σ α} {f : α → Action σ β} {b : β} {timer : Timer}
    (h : env.Timely m a (x { m with timer }))
    (next : ∀ timer, env.Timely m b (f a { m with timer })) :
    env.Timely m b ((x >>= f) { m with timer }) := by
  rw [Action.bind_apply]
  generalize x { m with timer } = e at h
  cases h with
  | inTime timer => exact next timer
  | late timer missed limited => exact .late timer missed limited

open Footprint.Action

/-- A loop knows values only one by one. -/
theorem goThrough_eq {step : α → Value → Action σ α} {i : Items} {vs : List Value}
    (yields : i.Yields vs) : env.goThrough step a i = env.goThrough step a (.values vs) := by
  unfold goThrough
  dsimp only
  rw [yields.fold_eq, (Items.yields_values vs).fold_eq]

/-- What holds of the values gone through so far and of what they have come to, and goes on to hold
with each further value, holds in the end. -/
theorem timely_goThrough {step : α → Value → Action σ α} {i : Items} {vs : List Value}
    {P : List Value → α → Prop} (yields : i.Yields vs) (start : P [] a)
    (advance : ∀ before v after, vs = before ++ v :: after → ∀ a, P before a →
      ∃ a', P (before ++ [v]) a' ∧ ∀ timer, step a v { m with timer } = .done a' { m with timer }) :
    ∃ a', P vs a' ∧ env.Timely m a' (env.goThrough step a i m) := by
  unfold goThrough
  rw [yields.fold_eq]
  set counted := fun (acc : α × Nat) (v : Value) => (do
    if acc.2 % checkStride = 0 then env.checkDeadline
    return (← step acc.1 v, acc.2 + 1) : Action σ (α × Nat)) with counted_def
  -- what is left of the values, from any state of the loop on
  have loop (after before : List Value) (split : vs = before ++ after) (a : α) (n : Nat)
      (holds : P before a) : ∃ a' n', P vs a' ∧
        ∀ timer, env.Timely m (a', n') (after.foldlM counted (a, n) { m with timer }) := by
    induction after generalizing before a n with
    | nil => exact ⟨a, n, by simpa [split] using holds, fun timer => .inTime timer⟩
    | cons v after ih =>
      obtain ⟨a', holds', steps⟩ := advance before v after split a holds
      obtain ⟨a'', n'', result, rest⟩ := ih (before ++ [v]) (by simp [split]) a' (n + 1) holds'
      refine ⟨a'', n'', result, fun timer => ?_⟩
      rw [List.foldlM_cons]
      have taken (timer : Timer) :
          env.Timely m (a', n + 1) ((do return (← step a v, n + 1)) { m with timer }) :=
        Timely.bind (steps timer ▸ .inTime timer) .inTime
      have once : env.Timely m (a', n + 1) (counted (a, n) v { m with timer }) := by
        by_cases due : n % checkStride = 0
        · have first : counted (a, n) v = (do env.checkDeadline; return (← step a v, n + 1)) :=
            if_pos due
          rw [first]
          exact Timely.bind (timely_checkDeadline env _).earlier taken
        · have first : counted (a, n) v = (do return (← step a v, n + 1)) := if_neg due
          rw [first]
          exact taken timer
      exact once.bind rest
  obtain ⟨a', n', result, run⟩ := loop vs [] rfl a 0 start
  exact ⟨a', result, (run m.timer).bind .inTime⟩

end Setting

end Footprint
