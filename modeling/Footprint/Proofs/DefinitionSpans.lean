import Mathlib
import Footprint.Proofs.DefinitionLines

set_option autoImplicit false

/-!
The spans of the definitions of a script are laminar. Of two definitions one is below the other in
the tree, and then its span lies within that of the other and begins below its header, or the spans
have no line in common.
-/

namespace Footprint

namespace Node

/-- The node at the end of a path down the tree, which says of each child which one it is. -/
def at? (n : Node) : List Nat → Option Node
  | [] => some n
  | i :: path => n.children[i]?.bind fun m => m.at? path

variable {n m k : Node} {path a b : List Nat} {d A B : Definition}

theorem at?_append : n.at? (a ++ b) = (n.at? a).bind fun m => m.at? b := by
  induction a generalizing n with
  | nil => rfl
  | cons i a ih =>
    rw [List.cons_append, at?, at?, Option.bind_assoc]
    exact congrArg _ (funext fun m => ih)

theorem mem_walk_of_at? (h : n.at? path = some m) : m ∈ n.walk := by
  induction path generalizing n with
  | nil =>
    cases h
    exact mem_walk_self _
  | cons i path ih =>
    obtain ⟨child, found, h⟩ := Option.bind_eq_some_iff.1 h
    exact mem_walk_of_child (List.mem_of_getElem? found) (ih h)

/-- Every node of a tree is at the end of a path. -/
theorem mem_walk_iff_at? : m ∈ n.walk ↔ ∃ path, n.at? path = some m := by
  refine ⟨fun h => ?_, fun ⟨path, h⟩ => mem_walk_of_at? h⟩
  induction n using below with
  | node n ih =>
    rw [walk_eq, List.mem_cons, List.mem_flatMap] at h
    rcases h with rfl | ⟨child, hchild, h⟩
    · exact ⟨[], rfl⟩
    · obtain ⟨i, hi⟩ := List.getElem?_of_mem hchild
      obtain ⟨path, hpath⟩ := ih child hchild h
      exact ⟨i :: path, by rw [at?, hi, Option.bind_some, hpath]⟩

/-- The definition at the end of a path. -/
def definitionAt? (n : Node) (path : List Nat) : Option Definition :=
  (n.at? path).bind toDefinition?

theorem span_mem_of_definitionAt? (h : n.definitionAt? path = some d) : d.span ∈ n.spans := by
  obtain ⟨m, found, defined⟩ := Option.bind_eq_some_iff.1 h
  exact mem_spans.2 ⟨m, mem_walk_of_at? found, d, defined, rfl⟩

/-- A definition on a path that goes on below a node is one of a child. -/
theorem definitionAt?_append {i : Nat} (h : n.definitionAt? (a ++ i :: path) = some d) :
    ∃ m child, n.at? a = some m ∧ m.children[i]? = some child ∧
      child.definitionAt? path = some d := by
  unfold definitionAt? at h
  rw [at?_append] at h
  obtain ⟨k, found, defined⟩ := Option.bind_eq_some_iff.1 h
  obtain ⟨m, above, found⟩ := Option.bind_eq_some_iff.1 found
  obtain ⟨child, hchild, found⟩ := Option.bind_eq_some_iff.1 found
  exact ⟨m, child, above, hchild, Option.bind_eq_some_iff.2 ⟨k, found, defined⟩⟩

/-- What is below a definition lies in its body, and begins below its header. -/
theorem Laminar.nested (h : n.Laminar) (hA : n.definitionAt? a = some A)
    (hB : n.definitionAt? b = some B) (within : a <+: b) (other : a ≠ b) :
    A.pos.line < B.span.first ∧ B.span.last ≤ A.endLine := by
  obtain ⟨rest, rfl⟩ := within
  cases rest with
  | nil => exact absurd (List.append_nil a).symm other
  | cons i path =>
    obtain ⟨m, child, found, hchild, hB⟩ := definitionAt?_append hB
    obtain ⟨m', found', defined⟩ := Option.bind_eq_some_iff.1 hA
    obtain rfl := Option.some.inj (found.symm.trans found')
    have inside := span_mem_of_definitionAt? hB
    obtain ⟨header, split, plain⟩ := children_of_toDefinition? defined
    have listed := List.mem_of_getElem? hchild
    rw [split] at listed
    rcases List.mem_append.1 listed with listed | listed
    · rw [spans_of_isPlain (plain child listed)] at inside
      cases inside
    · obtain ⟨s, hs, rfl⟩ := List.mem_map.1 listed
      exact ((h m (mem_walk_of_at? found)).2 A defined).inner s hs B.span inside

/-- Two paths go the same way up to a node at which they part, if none goes on where the other one
ends. -/
theorem exists_parting (ha : ¬a <+: b) (hb : ¬b <+: a) :
    ∃ front i j p q, i ≠ j ∧ a = front ++ i :: p ∧ b = front ++ j :: q := by
  induction a generalizing b with
  | nil => exact absurd List.nil_prefix ha
  | cons i a ih =>
    cases b with
    | nil => exact absurd List.nil_prefix hb
    | cons j b =>
      by_cases same : i = j
      · subst same
        obtain ⟨front, i', j', p, q, parts, rfl, rfl⟩ :=
          ih (fun le => ha (List.cons_prefix_cons.2 ⟨rfl, le⟩))
            fun le => hb (List.cons_prefix_cons.2 ⟨rfl, le⟩)
        exact ⟨i :: front, i', j', p, q, parts, rfl, rfl⟩
      · exact ⟨[], i, j, a, b, same, rfl, rfl⟩

theorem Laminar.apart (h : n.Laminar) (hA : n.definitionAt? a = some A)
    (hB : n.definitionAt? b = some B) (ha : ¬a <+: b) (hb : ¬b <+: a) :
    A.span.last < B.span.first ∨ B.span.last < A.span.first := by
  obtain ⟨front, i, j, p, q, parts, rfl, rfl⟩ := exists_parting ha hb
  obtain ⟨m, c, found, hc, hA⟩ := definitionAt?_append hA
  obtain ⟨m', d, found', hd, hB⟩ := definitionAt?_append hB
  obtain rfl := Option.some.inj (found.symm.trans found')
  have apart := List.pairwise_iff_getElem.1 (h m (mem_walk_of_at? found)).1
  obtain ⟨hi, rfl⟩ := List.getElem?_eq_some_iff.1 hc
  obtain ⟨hj, rfl⟩ := List.getElem?_eq_some_iff.1 hd
  have inA := span_mem_of_definitionAt? hA
  have inB := span_mem_of_definitionAt? hB
  rcases Nat.lt_or_gt_of_ne parts with before | after
  · exact .inl (apart i j hi hj before A.span inA B.span inB)
  · exact .inr (apart j i hj hi after B.span inB A.span inA)

end Node

/-- The registry has a definition with its span. A definition below another one in the tree lies in
its span and begins below its header; of two definitions of which none is below the other, the spans
have no line in common. What is in the body of a definition stands between its header and its last
line. -/
theorem spans_laminar {source : String} {script : Script} (parsed : parse source = .ok script)
    {a b : List Nat} {A B : Definition} (hA : (Node.script script).definitionAt? a = some A)
    (hB : (Node.script script).definitionAt? b = some B) :
    (A.name, A.span) ∈ (Registry.ofScript script).entries ∧
      (a <+: b → a ≠ b → A.span.first ≤ B.span.first ∧ B.span.last ≤ A.span.last ∧
        A.pos.line < B.span.first) ∧
      (¬a <+: b → ¬b <+: a → A.span.lines.Disjoint B.span.lines) ∧
      ∀ s ∈ A.body, ∀ m ∈ (Node.stmt s).walk, ∀ p ∈ m.pos?,
        A.pos.line ≤ p.line ∧ p.line ≤ A.endLine := by
  have laminar : (Node.script script).Laminar :=
    (lies_of_parse (fun g hg => Text.line_le_length hg) parsed).laminar
  obtain ⟨m, found, defined⟩ := Option.bind_eq_some_iff.1 hA
  have walked := Node.mem_walk_of_at? found
  refine ⟨?_, fun within other => ?_, fun ha hb l hl hl' => ?_, ?_⟩
  · refine List.mem_filterMap.2 ⟨m, walked, ?_⟩
    rw [Node.definition?_eq, defined, Option.map_some]
  · obtain ⟨below, within⟩ := laminar.nested hA hB within other
    exact ⟨Nat.le_trans A.first_le_pos (Nat.le_of_lt below),
      Nat.le_trans within A.endLine_le_last, below⟩
  · rw [Span.mem_lines] at hl hl'
    rcases laminar.apart hA hB ha hb with before | after
    · omega
    · omega
  · exact ((laminar m walked).2 A defined).body

section

set_option maxRecDepth 1000

/-- A decorated function with a class and a decorated function in it, which ends in a list of two
lines. -/
theorem spans_laminar_decorated :
    let beside : Definition := ⟨"C", [], ⟨3, 5⟩, 3, [.pass ⟨3, 14⟩]⟩
    let inner : Definition :=
      ⟨"g", [.name "d" ⟨4, 6⟩], ⟨5, 5⟩, 6, [.ret (some (.list [] ⟨5, 21⟩)) ⟨5, 14⟩]⟩
    let outer : Definition := ⟨"f", [.name "d" ⟨1, 2⟩], ⟨2, 1⟩, 6,
      [.classDef ⟨"C", [], [], 2, ⟨3, 5⟩, 3⟩ beside.body,
        .function ⟨"g", false, [], inner.decorators, none, 3, ⟨[], [], []⟩, ⟨5, 5⟩, 6⟩ inner.body]⟩
    let script : Script := ⟨[.function ⟨"f", false, [], outer.decorators, none, 1,
      ⟨["C", "g"], [], []⟩, ⟨2, 1⟩, 6⟩ outer.body]⟩
    parse "@d\ndef f():\n    class C: pass\n    @d\n    def g(): return [\n]\n" = .ok script ∧
      (Node.script script).definitionAt? [0] = some outer ∧
      (Node.script script).definitionAt? [0, 1] = some beside ∧
      (Node.script script).definitionAt? [0, 2] = some inner ∧
      (outer.span.first ≤ inner.span.first ∧ inner.span.last ≤ outer.span.last ∧
        outer.pos.line < inner.span.first) ∧
      beside.span.lines.Disjoint inner.span.lines := by
  intro beside inner outer script
  have parsed : parse "@d\ndef f():\n    class C: pass\n    @d\n    def g(): return [\n]\n" =
      .ok script := by cbv
  have hOuter : (Node.script script).definitionAt? [0] = some outer := rfl
  have hBeside : (Node.script script).definitionAt? [0, 1] = some beside := rfl
  have hInner : (Node.script script).definitionAt? [0, 2] = some inner := rfl
  refine ⟨parsed, hOuter, hBeside, hInner, ?_, ?_⟩
  · exact (spans_laminar parsed hOuter hInner).2.1 (by decide) (by decide)
  · exact (spans_laminar parsed hBeside hInner).2.2.1 (by decide) (by decide)

end

end Footprint
