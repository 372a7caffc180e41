import Footprint.Syntax.Tree

set_option autoImplicit false

/-!
Executed lines and sets of them. A coverage set is kept in ascending order, so two sets with the
same lines are the same list, and its text lists each line once.
-/

namespace Footprint

/-- A line that was executed in a function, a class body or top-level code. -/
structure LineHit where
  function : String
  line : Nat
  deriving DecidableEq

namespace LineHit

/-- The order of names by code points, and of lines with one name by their numbers. -/
def Before (a b : LineHit) : Prop :=
  a.function < b.function ∨ a.function = b.function ∧ a.line < b.line

instance (a b : LineHit) : Decidable (Before a b) :=
  inferInstanceAs (Decidable (_ ∨ _))

theorem Before.trans {a b c : LineHit} (h : Before a b) (k : Before b c) : Before a c := by
  rcases h with h | ⟨h, hl⟩ <;> rcases k with k | ⟨k, kl⟩
  · exact .inl (String.lt_trans h k)
  · exact .inl (k ▸ h)
  · exact .inl (h ▸ k)
  · exact .inr ⟨h.trans k, Nat.lt_trans hl kl⟩

theorem not_before_self (a : LineHit) : ¬Before a a := by
  rintro (h | ⟨_, h⟩)
  · exact String.lt_irrefl _ h
  · exact Nat.lt_irrefl _ h

theorem before_or_after {a b : LineHit} (h : a ≠ b) : Before a b ∨ Before b a := by
  by_cases hf : a.function = b.function
  · have hl : a.line ≠ b.line := fun hl => h (by cases a; cases b; simp_all)
    rcases Nat.lt_or_gt_of_ne hl with hl | hl
    · exact .inl (.inr ⟨hf, hl⟩)
    · exact .inr (.inr ⟨hf.symm, hl⟩)
  · by_cases hlt : a.function < b.function
    · exact .inl (.inl hlt)
    · refine .inr (.inl (Decidable.byContradiction fun hgt => hf ?_))
      exact String.le_antisymm (String.not_lt.1 hgt) (String.not_lt.1 hlt)

def text (h : LineHit) : String := s!"('{h.function}', {h.line})"

/-- Adds a hit to ascending ones, each once. -/
def insertInto (h : LineHit) : List LineHit → List LineHit
  | [] => [h]
  | a :: rest =>
    if h = a then a :: rest else if Before h a then h :: a :: rest else a :: h.insertInto rest

theorem mem_insertInto {h b : LineHit} {hs : List LineHit} :
    b ∈ h.insertInto hs ↔ b = h ∨ b ∈ hs := by
  induction hs with
  | nil => simp [insertInto]
  | cons a rest ih =>
    simp only [insertInto]
    split
    · subst_vars; simp
    · split <;> simp [ih, or_left_comm]

theorem pairwise_insertInto (h : LineHit) {hs : List LineHit} (asc : hs.Pairwise Before) :
    (h.insertInto hs).Pairwise Before := by
  induction hs with
  | nil => simp [insertInto]
  | cons a rest ih =>
    have ⟨ha, hrest⟩ := List.pairwise_cons.1 asc
    simp only [insertInto]
    split
    · exact asc
    · split
      next _ hb =>
        refine List.pairwise_cons.2 ⟨fun b hm => ?_, asc⟩
        rcases List.mem_cons.1 hm with rfl | hm
        · exact hb
        · exact hb.trans (ha b hm)
      next hne hb =>
        refine List.pairwise_cons.2 ⟨fun b hm => ?_, ih hrest⟩
        rcases mem_insertInto.1 hm with rfl | hm
        · exact (before_or_after hne).resolve_left hb
        · exact ha b hm

end LineHit

structure Coverage where
  hits : List LineHit
  ascending : hits.Pairwise LineHit.Before

namespace Coverage

instance : Membership LineHit Coverage := ⟨fun c h => h ∈ c.hits⟩

instance (h : LineHit) (c : Coverage) : Decidable (h ∈ c) :=
  inferInstanceAs (Decidable (h ∈ c.hits))

def empty : Coverage := ⟨[], .nil⟩

def insert (h : LineHit) (c : Coverage) : Coverage :=
  ⟨h.insertInto c.hits, LineHit.pairwise_insertInto h c.ascending⟩

@[simp] theorem mem_insert {h b : LineHit} {c : Coverage} : b ∈ c.insert h ↔ b = h ∨ b ∈ c :=
  LineHit.mem_insertInto

def ofList (hs : List LineHit) : Coverage := hs.foldr insert empty

@[simp] theorem mem_ofList {b : LineHit} {hs : List LineHit} : b ∈ ofList hs ↔ b ∈ hs := by
  induction hs with
  | nil => exact Iff.rfl
  | cons h hs ih =>
    have heq : ofList (h :: hs) = insert h (ofList hs) := rfl
    rw [heq, mem_insert, ih, List.mem_cons]

def size (c : Coverage) : Nat := c.hits.length

/-- The lines in braces; the empty set has a name. -/
def text (c : Coverage) : String :=
  if c.hits.isEmpty then "set()"
  else "\x7b" ++ ", ".intercalate (c.hits.map LineHit.text) ++ "\x7d"

def names (c : Coverage) : List String := (c.hits.map LineHit.function).eraseDups

end Coverage

end Footprint
