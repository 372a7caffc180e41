import Footprint.Value.Basic

set_option autoImplicit false

/-!
Names bound to values, each name once.
-/

namespace Footprint

abbrev Bindings := List (String × Value)

namespace Bindings

def get? (name : String) : Bindings → Option Value
  | [] => none
  | (n, v) :: rest => if n = name then some v else get? name rest

/-- Binds a name, in its place if it is bound already. -/
def set (name : String) (value : Value) : Bindings → Bindings
  | [] => [(name, value)]
  | (n, v) :: rest => if n = name then (name, value) :: rest else (n, v) :: set name value rest

def erase (name : String) : Bindings → Bindings
  | [] => []
  | (n, v) :: rest => if n = name then erase name rest else (n, v) :: erase name rest

theorem get?_set (b : Bindings) (name other : String) (v : Value) :
    (b.set name v).get? other = if name = other then some v else b.get? other := by
  induction b with
  | nil => by_cases h : name = other <;> simp [set, get?, h]
  | cons p rest ih =>
    obtain ⟨n, w⟩ := p
    by_cases hn : n = name
    · subst hn
      by_cases h : n = other <;> simp [set, get?, h]
    · by_cases h : n = other
      · subst h
        simp [set, get?, hn, Ne.symm hn]
      · simp [set, get?, hn, h, ih]

theorem get?_erase (b : Bindings) (name other : String) :
    (b.erase name).get? other = if name = other then none else b.get? other := by
  induction b with
  | nil => simp [erase, get?]
  | cons p rest ih =>
    obtain ⟨n, w⟩ := p
    by_cases hn : n = name
    · subst hn
      by_cases h : n = other <;> simp_all [erase, get?]
    · by_cases h : n = other
      · subst h
        simp [erase, get?, hn, Ne.symm hn]
      · simp [erase, get?, hn, h, ih]

end Bindings

end Footprint
