import Mathlib.Data.List.Basic
import Mathlib.Data.List.Pairwise
import Footprint.Proofs.Code
import Footprint.Syntax.Count
import Footprint.Trace.Coverage

set_option autoImplicit false

/-!
Who owns what in a script. Every node of its syntax tree is labelled with the code object it belongs
to; the lines that may be told for a code object are then found among the nodes with its label, and
there are as many of them as can be counted on the tree.
-/

namespace Footprint

namespace Node

/-- What holds of a node if it holds of its children holds of all nodes. -/
theorem below {motive : Node → Prop} (node : ∀ n, (∀ m ∈ n.children, motive m) → motive n)
    (n : Node) : motive n :=
  node n fun m hm =>
    have := sizeOf_lt_of_mem_children hm
    below node m
termination_by sizeOf n

/-- The code object that the statements right below a node belong to. -/
def owner (c : Code) : Node → Code
  | stmt (.function head body) => .function ⟨head, body⟩
  | stmt (.classDef head body) => .classBody head body
  | _ => c

/-- The node and all nodes below it, each with the code object it belongs to. -/
def owned (c : Code) (n : Node) : List (Code × Node) :=
  (c, n) :: n.children.attach.flatMap fun m => owned (n.owner c) m.1
termination_by sizeOf n
decreasing_by exact sizeOf_lt_of_mem_children m.2

variable {c d : Code} {n m k : Node}

theorem owned_eq (c : Code) (n : Node) :
    n.owned c = (c, n) :: n.children.flatMap (owned (n.owner c)) := by
  rw [owned]
  congr 1
  rw [← List.flatMap_map Subtype.val, List.attach_map_subtype_val]

theorem map_snd_owned (c : Code) (n : Node) : (n.owned c).map Prod.snd = n.walk := by
  induction n using below generalizing c with
  | node n ih =>
    rw [owned_eq, walk_eq, List.map_cons, List.map_flatMap]
    congr 1
    exact List.flatMap_congr fun m hm => ih m hm _

/-- The statements right below a node are labelled with the code object that owns them. -/
theorem mem_owned_of_child (h : (d, m) ∈ n.owned c) (hk : k ∈ m.children) :
    (m.owner d, k) ∈ n.owned c := by
  induction n using below generalizing c with
  | node n ih =>
    rw [owned_eq, List.mem_cons] at h ⊢
    rcases h with same | inside
    · obtain ⟨rfl, rfl⟩ := Prod.mk.inj same
      refine .inr (List.mem_flatMap.2 ⟨k, hk, ?_⟩)
      rw [owned_eq]
      exact List.mem_cons_self
    · obtain ⟨child, hchild, inside⟩ := List.mem_flatMap.1 inside
      exact .inr (List.mem_flatMap.2 ⟨child, hchild, ih child hchild inside⟩)

end Node

/-- A statement in a block of another one stands right below that or right below an except clause
of it. -/
theorem Stmt.mem_parts_of_block {s t : Stmt} {b : List Stmt} (hb : b ∈ s.blocks) (ht : t ∈ b) :
    .stmt t ∈ s.parts ∨ ∃ h : Handler, .handler h ∈ s.parts ∧ t ∈ h.body := by
  cases s with
  | forLoop | whileLoop | cond | withBlock =>
    refine .inl ?_
    simp only [blocks, List.mem_cons, List.not_mem_nil, or_false] at hb
    rcases hb with rfl | rfl <;> simp [parts, ht]
  | tryBlock body handlers orelse final p =>
    simp only [blocks, List.mem_append, List.mem_cons, List.mem_map, List.not_mem_nil,
      or_false] at hb
    rcases hb with (rfl | ⟨h, hh, rfl⟩) | rfl | rfl
    · exact .inl (by simp [parts, ht])
    · exact .inr ⟨h, by simp [parts, hh], ht⟩
    · exact .inl (by simp [parts, ht])
    · exact .inl (by simp [parts, ht])
  | _ => cases hb

theorem Stmt.owner_of_block {s : Stmt} {b : List Stmt} (hb : b ∈ s.blocks) (c : Code) :
    (Node.stmt s).owner c = c := by
  cases s <;> first | rfl | cases hb

namespace Script

/-- The code objects of a script: its top level and those of the definitions in another one. -/
inductive Contains (s : Script) : Code → Prop
  | top : s.Contains (.top s)
  | inner {c d : Code} : s.Contains c → c.Defines d → s.Contains d

/-- The nodes of a script with the code objects that they belong to. -/
def owned (s : Script) : List (Code × Node) := (Node.script s).owned (.top s)

variable {s : Script} {c d : Code}

theorem mem_owned_of_owns (hbody : ∀ t ∈ c.body, (c, .stmt t) ∈ s.owned) {t : Stmt}
    (h : c.Owns t) : (c, .stmt t) ∈ s.owned := by
  induction h with
  | body ht => exact hbody _ ht
  | @block parent t b _ hb ht ih =>
    have below {m : Node} (hm : m ∈ (Node.stmt parent).children) : (c, m) ∈ s.owned := by
      have h := Node.mem_owned_of_child ih hm
      rwa [Stmt.owner_of_block hb c] at h
    rcases Stmt.mem_parts_of_block hb ht with part | ⟨h, clause, ht⟩
    · exact below part
    · apply Node.mem_owned_of_child (below clause)
      simp [Node.children, ht]

theorem Contains.body (h : s.Contains c) : ∀ t ∈ c.body, (c, .stmt t) ∈ s.owned := by
  induction h with
  | top =>
    intro t ht
    have root : (Code.top s, Node.script s) ∈ s.owned := by
      unfold owned
      rw [Node.owned_eq]
      exact List.mem_cons_self
    exact Node.mem_owned_of_child root (List.mem_map_of_mem ht)
  | inner _ defines ih =>
    intro t ht
    cases defines with
    | @function head body owns =>
      apply Node.mem_owned_of_child (mem_owned_of_owns ih owns)
      have ht : t ∈ body := by
        change t ∈ Function.runBody ⟨head, body⟩ at ht
        unfold Function.runBody at ht
        split at ht
        · next first rest heq =>
          dsimp only at heq
          rw [heq]
          split at ht
          · exact List.mem_cons_of_mem _ ht
          · exact ht
        · cases ht
      simp [Node.children, Stmt.parts, ht]
    | @classBody head body owns =>
      apply Node.mem_owned_of_child (mem_owned_of_owns ih owns)
      have ht : t ∈ body := ht
      simp [Node.children, Stmt.parts, ht]

theorem Contains.owns (h : s.Contains c) {t : Stmt} (ht : c.Owns t) : (c, .stmt t) ∈ s.owned :=
  mem_owned_of_owns h.body ht

theorem Contains.ownsClause (h : s.Contains c) {hd : Handler} (hhd : c.OwnsClause hd) :
    (c, .handler hd) ∈ s.owned := by
  obtain ⟨body, handlers, orelse, final, p, owns, hmem⟩ := hhd
  have parent := h.owns owns
  exact Node.mem_owned_of_child parent (by simp [Node.children, Stmt.parts, hmem])

end Script

/-! ### Lines that may be hit -/

namespace Node

def isDeclaration : Node → Bool
  | stmt s => s.isDeclaration
  | _ => false

def isExpressionStatement : Node → Bool
  | stmt (.expr ..) => true
  | _ => false

def isClass : Node → Bool
  | stmt (.classDef ..) => true
  | _ => false

def decorators : Node → List Expr
  | stmt s => s.decorators
  | _ => []

/-- The header of a class is told in the frame of its body. -/
def headerHits : Node → List LineHit
  | stmt (.classDef head _) => [⟨head.name, head.pos.line⟩]
  | _ => []

/-- What may be hit because of a node that belongs to a code object. -/
def hits (c : Code) : Node → List LineHit
  | stmt s => s.toldLines.map (⟨c.name, ·⟩) ++ (stmt s).headerHits
  | handler h => [⟨c.name, h.pos.line⟩]
  | _ => []

theorem length_hits (c : Code) (n : Node) :
    (n.hits c).length + (if n.isDeclaration then 1 else 0) =
      (if n.isStatement then 1 else 0) + (if n.isExpressionStatement then 1 else 0) +
        n.decorators.length + (if n.isClass then 1 else 0) := by
  cases n with
  | stmt s =>
    cases s <;>
      simp [hits, headerHits, isDeclaration, isStatement, isExpressionStatement, isClass,
        decorators, Stmt.toldLines, Stmt.isDeclaration, Stmt.decorators] <;>
      omega
  | _ => rfl

end Node

namespace Script

/-- The number of nodes of a kind. -/
def count (s : Script) (kind : Node → Bool) : Nat := (Node.script s).walk.countP kind

/-- The decorators of all definitions. -/
def decorators (s : Script) : List Expr := (Node.script s).walk.flatMap Node.decorators

/-- Everything that may be hit in a run of the script. -/
def hits (s : Script) : List LineHit := s.owned.flatMap fun p => p.2.hits p.1

/-- There are as many hits as statements, without those that only declare, with those that are bare
expressions and with one more for each decorator and each class. -/
theorem length_hits (s : Script) :
    s.hits.length + s.count Node.isDeclaration =
      (Node.script s).countStatements + s.count Node.isExpressionStatement +
        s.decorators.length + s.count Node.isClass := by
  have sum (ps : List (Code × Node)) :
      (ps.flatMap fun p => p.2.hits p.1).length + (ps.map Prod.snd).countP Node.isDeclaration =
        (ps.map Prod.snd).countP Node.isStatement +
          (ps.map Prod.snd).countP Node.isExpressionStatement +
          ((ps.map Prod.snd).flatMap Node.decorators).length +
          (ps.map Prod.snd).countP Node.isClass := by
    induction ps with
    | nil => rfl
    | cons p ps ih =>
      have first := p.2.length_hits p.1
      simp only [List.flatMap_cons, List.map_cons, List.countP_cons, List.length_append]
      omega
  have all := sum s.owned
  rwa [show s.owned.map Prod.snd = (Node.script s).walk from Node.map_snd_owned _ _] at all

variable {s : Script} {c : Code}

/-- A line that is told for a code object is among those that may be hit. -/
theorem Contains.hit (h : s.Contains c) {n : Nat} (told : c.Tells n) : ⟨c.name, n⟩ ∈ s.hits := by
  have hit {c : Code} {m : Node} {hit : LineHit} (hm : (c, m) ∈ s.owned) (hhit : hit ∈ m.hits c) :
      hit ∈ s.hits := List.mem_flatMap.2 ⟨(c, m), hm, hhit⟩
  cases told with
  | stmt owns hn =>
    refine hit (h.owns owns) (List.mem_append_left _ ?_)
    exact List.mem_map_of_mem hn
  | clause owns => exact hit (h.ownsClause owns) List.mem_cons_self
  | header =>
    cases h with
    | inner outer defines =>
      cases defines with
      | classBody owns =>
        exact hit (outer.owns owns) (List.mem_append_right _ List.mem_cons_self)

end Script

/-! ### Numbers of definitions -/

namespace Node

/-- The code object of a definition. -/
def code? : Node → Option Code
  | stmt (.function head body) => some (.function ⟨head, body⟩)
  | stmt (.classDef head body) => some (.classBody head body)
  | _ => none

/-- The numbers of the definitions at and below a node, outer ones before inner ones. -/
def codes (n : Node) : List CodeId := n.walk.filterMap fun m => m.code?.map Code.id

theorem codes_eq (n : Node) :
    n.codes = (n.code?.map Code.id).toList ++ n.children.flatMap codes := by
  unfold codes
  rw [walk_eq, List.filterMap_cons, List.filterMap_flatMap]
  cases n.code? <;> rfl

/-- Of two nodes with one number, that number would be in the list twice. -/
theorem eq_of_codes (n : Node) (distinct : n.codes.Nodup) {m k : Node} (hm : m ∈ n.walk)
    (hk : k ∈ n.walk) {c d : Code} (hc : m.code? = some c) (hd : k.code? = some d)
    (same : c.id = d.id) : m = k := by
  have apart := List.pairwise_filterMap.1 distinct
  let R (a b : Node) : Prop := ∀ x, a.code?.map Code.id = some x →
    ∀ y, b.code?.map Code.id = some y → x ≠ y
  have : Std.Symm R := ⟨fun a b h x hx y hy => (h y hy x hx).symm⟩
  by_contra different
  have distinct := List.Pairwise.forall (R := R) apart hm hk different
  exact distinct c.id (by rw [hc]; rfl) d.id (by rw [hd]; rfl) same

end Node

namespace Script

/-- The definitions of the script are numbered from one in the order of their headers. -/
def IsNumbered (s : Script) : Prop := ∃ k, (Node.script s).codes = List.range' (topCode + 1) k

variable {s : Script} {c d : Code}

theorem Contains.top_or_definition (h : s.Contains c) :
    c = .top s ∨ ∃ n ∈ (Node.script s).walk, n.code? = some c := by
  have walked {c : Code} {n : Node} (hn : (c, n) ∈ s.owned) : n ∈ (Node.script s).walk := by
    rw [← Node.map_snd_owned (.top s)]
    exact List.mem_map_of_mem hn
  cases h with
  | top => exact .inl rfl
  | inner outer defines =>
    cases defines with
    | function owns => exact .inr ⟨_, walked (outer.owns owns), rfl⟩
    | classBody owns => exact .inr ⟨_, walked (outer.owns owns), rfl⟩

/-- In a numbered script a code object is known by its number. -/
theorem Contains.eq_of_id (numbered : s.IsNumbered) (hc : s.Contains c) (hd : s.Contains d)
    (same : c.id = d.id) : c = d := by
  obtain ⟨k, codes⟩ := numbered
  have mem {e : Code} {n : Node} (hn : n ∈ (Node.script s).walk) (he : n.code? = some e) :
      e.id ∈ List.range' (topCode + 1) k := by
    rw [← codes]
    exact List.mem_filterMap.2 ⟨n, hn, by rw [he]; rfl⟩
  have inner {e : Code} {n : Node} (hn : n ∈ (Node.script s).walk) (he : n.code? = some e) :
      e.id ≠ (Code.top s).id := by
    exact Nat.ne_of_gt (List.mem_range'_1.1 (mem hn he)).1
  rcases hc.top_or_definition with rfl | ⟨n, hn, hcn⟩ <;>
    rcases hd.top_or_definition with rfl | ⟨m, hm, hdm⟩
  · rfl
  · exact absurd same.symm (inner hm hdm)
  · exact absurd same (inner hn hcn)
  · obtain rfl : n = m := (Node.script s).eq_of_codes (codes ▸ List.nodup_range') hn hm hcn hdm same
    exact Option.some.inj (hcn.symm.trans hdm)

end Script

end Footprint
