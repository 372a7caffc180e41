import Footprint.Proofs.DefinitionNumbers
import Footprint.Proofs.ReadLines
import Footprint.Syntax.Registry

set_option autoImplicit false

/-!
Definitions within definitions. Their spans are laminar if definitions side by side have no line in
common and those within another one begin below its header. A tree is put together from parts of
which each ends before the line on which the next one begins.
-/

namespace Footprint

theorem Span.mem_lines {s : Span} {n : Nat} : n ∈ s.lines ↔ s.first ≤ n ∧ n ≤ s.last := by
  unfold lines
  rw [List.mem_range'_1]
  omega

/-- A definition, with what functions and classes have in common. -/
structure Definition where
  name : String
  decorators : List Expr
  pos : Position
  endLine : Nat
  body : List Stmt

namespace Definition

def span (d : Definition) : Span := .ofDefinition d.decorators d.pos d.endLine

end Definition

namespace Node

def toDefinition? : Node → Option Definition
  | stmt (.function h body) => some ⟨h.name, h.decorators, h.pos, h.endLine, body⟩
  | stmt (.classDef h body) => some ⟨h.name, h.decorators, h.pos, h.endLine, body⟩
  | _ => none

theorem definition?_eq (n : Node) :
    n.definition? = n.toDefinition?.map fun d => (d.name, d.span) := by
  cases n with
  | stmt s => cases s <;> rfl
  | _ => rfl

variable {first first' l last last' : Nat} {n m k : Node} {ns ms : List Node} {s : Span}
  {d : Definition}

theorem mem_walk_self (n : Node) : n ∈ n.walk := by
  rw [walk_eq]
  exact List.mem_cons_self

theorem mem_walk_of_child (hm : m ∈ n.children) (hk : k ∈ m.walk) : k ∈ n.walk := by
  rw [walk_eq]
  exact List.mem_cons_of_mem _ (List.mem_flatMap.2 ⟨m, hm, hk⟩)

theorem mem_walk_trans (hm : m ∈ n.walk) (hk : k ∈ m.walk) : k ∈ n.walk := by
  induction n using below with
  | node n ih =>
    rw [walk_eq, List.mem_cons, List.mem_flatMap] at hm
    rcases hm with rfl | ⟨child, hchild, hm⟩
    · exact hk
    · exact mem_walk_of_child hchild (ih child hchild hm)

/-- The node is no statement and no except clause, and none is below it. -/
def isPlain : Node → Bool
  | expr _ | param _ | withItem _ | imported _ => true
  | script _ | stmt _ | handler _ => false

theorem isPlain_child (h : n.isPlain = true) (hm : m ∈ n.children) : m.isPlain = true := by
  cases n with
  | script | stmt | handler => cases h
  | imported => cases hm
  | expr e =>
    obtain ⟨d, -, rfl⟩ := List.mem_map.1 hm
    rfl
  | param p =>
    rcases List.mem_append.1 hm with hm | hm
    · obtain ⟨d, -, rfl⟩ := List.mem_map.1 hm
      rfl
    · obtain ⟨d, -, rfl⟩ := List.mem_map.1 hm
      rfl
  | withItem i =>
    rcases List.mem_append.1 hm with hm | hm
    · rw [List.mem_singleton.1 hm]
      rfl
    · obtain ⟨d, -, rfl⟩ := List.mem_map.1 hm
      rfl

theorem isPlain_below (h : n.isPlain = true) (hm : m ∈ n.walk) : m.isPlain = true := by
  induction n using below with
  | node n ih =>
    rw [walk_eq, List.mem_cons, List.mem_flatMap] at hm
    rcases hm with rfl | ⟨child, hchild, hm⟩
    · exact h
    · exact ih child hchild (isPlain_child h hchild) hm

theorem toDefinition?_of_isPlain (h : n.isPlain = true) : n.toDefinition? = none := by
  cases n with
  | script | stmt | handler => cases h
  | imported | expr | param | withItem => rfl

/-- What a definition has besides its body is plain. -/
theorem children_of_toDefinition? (h : n.toDefinition? = some d) : ∃ header : List Node,
    n.children = header ++ d.body.map stmt ∧ ∀ m ∈ header, m.isPlain = true := by
  unfold toDefinition? at h
  split at h
  · cases h
    exact ⟨_, rfl, by simp [or_imp, forall_and, isPlain]⟩
  · cases h
    exact ⟨_, rfl, by simp [or_imp, forall_and, isPlain]⟩
  · cases h

/-! ### Spans -/

/-- The spans of the definitions in a node. -/
def spans (n : Node) : List Span := n.walk.filterMap fun m => m.toDefinition?.map Definition.span

theorem mem_spans : s ∈ n.spans ↔ ∃ m ∈ n.walk, ∃ d ∈ m.toDefinition?, d.span = s := by
  unfold spans
  simp only [List.mem_filterMap, Option.map_eq_some_iff, Option.mem_def]

theorem spans_subset (hm : m ∈ n.walk) : m.spans ⊆ n.spans := by
  intro s hs
  obtain ⟨k, hk, defined⟩ := mem_spans.1 hs
  exact mem_spans.2 ⟨k, mem_walk_trans hm hk, defined⟩

/-- A span is that of the node or below it. -/
theorem mem_spans_cases (hs : s ∈ n.spans) :
    (∃ d ∈ n.toDefinition?, d.span = s) ∨ ∃ m ∈ n.children, s ∈ m.spans := by
  obtain ⟨k, hk, defined⟩ := mem_spans.1 hs
  rw [walk_eq, List.mem_cons, List.mem_flatMap] at hk
  rcases hk with rfl | ⟨m, hm, hk⟩
  · exact .inl defined
  · exact .inr ⟨m, hm, mem_spans.2 ⟨k, hk, defined⟩⟩

theorem spans_of_isPlain (h : n.isPlain = true) : n.spans = [] := by
  rw [List.eq_nil_iff_forall_not_mem]
  intro s hs
  obtain ⟨m, hm, d, defined, -⟩ := mem_spans.1 hs
  rw [toDefinition?_of_isPlain (isPlain_below h hm)] at defined
  cases defined

theorem spans_of_children (undefined : n.toDefinition? = none)
    (children : ∀ m ∈ n.children, m.spans = []) : n.spans = [] := by
  rw [List.eq_nil_iff_forall_not_mem]
  intro s hs
  rcases mem_spans_cases hs with ⟨d, defined, -⟩ | ⟨m, hm, hs⟩
  · rw [undefined] at defined
    cases defined
  · rw [children m hm] at hs
    cases hs

/-- The definitions in one node end before the lines on which those in another begin. -/
def Apart (n m : Node) : Prop := ∀ s ∈ n.spans, ∀ t ∈ m.spans, s.last < t.first

theorem apart_of_nil (none : n.spans = []) : Apart n m := by
  intro s hs
  rw [none] at hs
  cases hs

end Node

open Node

/-- Decorators stand above the header of a definition, and its body stands from there to its last
line; the definitions in the body begin below the header. -/
structure Definition.Encloses (d : Definition) : Prop where
  named : d.name ≠ topName
  above : ∀ e ∈ d.decorators, e.pos.line ≤ d.pos.line
  body : ∀ s ∈ d.body, (stmt s).Between d.pos.line d.endLine
  inner : ∀ s ∈ d.body, ∀ t ∈ (stmt s).spans, d.pos.line < t.first ∧ t.last ≤ d.endLine

namespace Node

variable {first first' l last last' : Nat} {n m k : Node} {ns ms : List Node} {d : Definition}

/-- The spans of the definitions in a node are laminar. -/
def Laminar (n : Node) : Prop :=
  ∀ m ∈ n.walk, m.children.Pairwise Apart ∧ ∀ d ∈ m.toDefinition?, d.Encloses

theorem laminar_of_children (apart : n.children.Pairwise Apart)
    (encloses : ∀ d ∈ n.toDefinition?, d.Encloses) (children : ∀ m ∈ n.children, m.Laminar) :
    n.Laminar := by
  intro m hm
  rw [walk_eq, List.mem_cons, List.mem_flatMap] at hm
  rcases hm with rfl | ⟨child, hchild, hm⟩
  · exact ⟨apart, encloses⟩
  · exact children child hchild m hm

theorem laminar_of_nil (none : n.spans = []) : n.Laminar := by
  intro m hm
  have within {k : Node} (hk : k ∈ m.walk) : k.spans = [] := by
    refine List.subset_nil.1 fun s hs => ?_
    rw [← none]
    exact spans_subset (mem_walk_trans hm hk) hs
  constructor
  · refine List.pairwise_of_forall_mem_list fun k hk _ _ => apart_of_nil (within ?_)
    exact mem_walk_of_child hk (mem_walk_self k)
  · intro d defined
    have here : d.span ∈ m.spans := mem_spans.2 ⟨m, mem_walk_self m, d, defined, rfl⟩
    rw [within (mem_walk_self m)] at here
    cases here

/-- The node stands between two lines with all definitions in it, whose spans are laminar. -/
structure Lies (first last : Nat) (n : Node) : Prop where
  between : n.Between first last
  spans : ∀ s ∈ n.spans, first ≤ s.first ∧ s.last ≤ last
  laminar : n.Laminar

/-- The nodes stand between two lines, with definitions one after the other. -/
structure AllLie (first last : Nat) (ns : List Node) : Prop where
  each : ∀ n ∈ ns, n.Lies first last
  apart : ns.Pairwise Apart

theorem Lies.mono (h : n.Lies first last) (before : first' ≤ first) (after : last ≤ last') :
    n.Lies first' last' where
  between := h.between.mono before after
  spans s hs := ⟨Nat.le_trans before (h.spans s hs).1, Nat.le_trans (h.spans s hs).2 after⟩
  laminar := h.laminar

theorem lies_of_between (h : n.Between first last) (none : n.spans = []) : n.Lies first last where
  between := h
  spans s hs := by
    rw [none] at hs
    cases hs
  laminar := laminar_of_nil none

theorem lies_of_children (undefined : n.toDefinition? = none)
    (own : ∀ p ∈ n.pos?, first ≤ p.line ∧ p.line ≤ last)
    (children : AllLie first last n.children) : n.Lies first last where
  between := between_iff.2 ⟨own, fun m hm => (children.each m hm).between⟩
  spans s hs := by
    rcases mem_spans_cases hs with ⟨d, defined, -⟩ | ⟨m, hm, hs⟩
    · rw [undefined] at defined
      cases defined
    · exact (children.each m hm).spans s hs
  laminar := by
    refine laminar_of_children children.apart ?_ fun m hm => (children.each m hm).laminar
    intro d defined
    rw [undefined] at defined
    cases defined

namespace AllLie

theorem none : AllLie first last [] := ⟨fun _ h => absurd h List.not_mem_nil, .nil⟩

theorem one (h : n.Lies first last) : AllLie first last [n] :=
  ⟨List.forall_mem_singleton.2 h, List.pairwise_singleton _ _⟩

theorem mono (h : AllLie first last ns) (before : first' ≤ first) (after : last ≤ last') :
    AllLie first' last' ns := ⟨fun n hn => (h.each n hn).mono before after, h.apart⟩

/-- What has been read up to a line, and what comes after that line. -/
theorem append (h : AllLie first l ns) (h' : AllLie (l + 1) last ms) (before : first ≤ l + 1)
    (after : l ≤ last) : AllLie first last (ns ++ ms) where
  each := List.forall_mem_append.2 ⟨fun n hn => (h.each n hn).mono (Nat.le_refl _) after,
    fun m hm => (h'.each m hm).mono before (Nat.le_refl _)⟩
  apart := by
    refine List.pairwise_append.2 ⟨h.apart, h'.apart, fun n hn m hm s hs t ht => ?_⟩
    have ends := ((h.each n hn).spans s hs).2
    have begins := ((h'.each m hm).spans t ht).1
    omega

theorem of_between (h : ∀ n ∈ ns, n.Between first last) (none : ∀ n ∈ ns, n.spans = []) :
    AllLie first last ns where
  each n hn := lies_of_between (h n hn) (none n hn)
  apart := List.pairwise_of_forall_mem_list fun n hn _ _ => apart_of_nil (none n hn)

/-- Nodes after a header in which nothing is defined. -/
theorem under (h : AllLie first last ms) (plain : ∀ n ∈ ns, n.isPlain = true)
    (header : ∀ n ∈ ns, n.Between first last) : AllLie first last (ns ++ ms) := by
  have none {n : Node} (hn : n ∈ ns) : n.spans = [] := spans_of_isPlain (plain n hn)
  refine ⟨List.forall_mem_append.2 ⟨fun n hn => lies_of_between (header n hn) (none hn), h.each⟩,
    List.pairwise_append.2 ⟨(of_between header fun n hn => none hn).apart, h.apart, ?_⟩⟩
  exact fun n hn _ _ => apart_of_nil (none hn)

end AllLie

end Node

/-! ### Statements -/

namespace Stmt

variable {first l last : Nat} {s : Stmt} {p : Position}

/-- The statements stand between two lines, with definitions one after the other. -/
abbrev AllLie (first last : Nat) (ss : List Stmt) : Prop := Node.AllLie first last (ss.map stmt)

theorem spans_of_isSimple (h : isSimple s = true) : (stmt s).spans = [] := by
  refine spans_of_children ?_ fun m hm => spans_of_isPlain ?_
  · cases s with
    | function | classDef => cases h
    | _ => rfl
  · have plain : ∀ m ∈ s.parts, m.isPlain = true := by
      cases s
      case function | classDef | forLoop | whileLoop | cond | withBlock | tryBlock => cases h
      all_goals simp [parts, or_imp, forall_and, Node.isPlain]
    exact plain m hm

/-- A statement that has a header, in which nothing is defined, and blocks. -/
theorem lies_of_parts {header below : List Node} (undefined : (stmt s).toDefinition? = none)
    (same : s.pos = p) (before : first ≤ p.line) (after : p.line ≤ last)
    (split : s.parts = header ++ below) (plain : ∀ m ∈ header, m.isPlain = true)
    (hheader : ∀ m ∈ header, m.Between first last) (hbelow : Node.AllLie first last below) :
    (stmt s).Lies first last := by
  refine lies_of_children undefined (fun q hq => ?_) ?_
  · cases hq
    rw [same]
    exact ⟨before, after⟩
  · change Node.AllLie first last s.parts
    rw [split]
    exact hbelow.under plain hheader

section

variable {body orelse final : List Stmt} {handlers : List Handler}

/-- A statement with a block and another one that may follow it. -/
theorem lies_of_orelse {header : List Node} (undefined : (stmt s).toDefinition? = none)
    (same : s.pos = p) (split : s.parts = header ++ body.map stmt ++ orelse.map stmt)
    (plain : ∀ m ∈ header, m.isPlain = true) (hheader : ∀ m ∈ header, m.Between p.line last)
    (le : p.line ≤ l) (le' : l ≤ last) (hbody : AllLie p.line l body)
    (horelse : AllLie (l + 1) last orelse) : (stmt s).Lies p.line last :=
  lies_of_parts undefined same (Nat.le_refl _) (Nat.le_trans le le')
    (split.trans (List.append_assoc ..)) plain hheader
    (hbody.append horelse (Nat.le_succ_of_le le) le')

theorem lies_withBlock {items : List WithItem}
    (hitems : ∀ i ∈ items, (withItem i).Between p.line last) (le : p.line ≤ last)
    (hbody : AllLie p.line last body) : (stmt (.withBlock items body p)).Lies p.line last :=
  lies_of_parts rfl rfl (Nat.le_refl _) le rfl (by simp [Node.isPlain])
    (List.forall_mem_map.2 hitems) hbody

theorem lies_tryBlock {l₁ l₂ : Nat} (le : p.line ≤ l) (le₁ : l ≤ l₁) (le₂ : l₁ ≤ l₂)
    (le' : l₂ ≤ last) (hbody : AllLie p.line l body)
    (hhandlers : Node.AllLie (l + 1) l₁ (handlers.map handler))
    (horelse : AllLie (l₁ + 1) l₂ orelse) (hfinal : AllLie (l₂ + 1) last final) :
    (stmt (.tryBlock body handlers orelse final p)).Lies p.line last := by
  have within : p.line ≤ last := by omega
  refine lies_of_parts rfl rfl (Nat.le_refl _) within (List.nil_append _).symm ?_ ?_ ?_
  · exact fun _ h => absurd h List.not_mem_nil
  · exact fun _ h => absurd h List.not_mem_nil
  · exact ((hbody.append hhandlers (by omega) le₁).append horelse (by omega) le₂).append hfinal
      (by omega) le'

theorem lies_clause {kind : Option Expr} {name : Option String} (le : p.line ≤ last)
    (hkind : ∀ e ∈ kind, (Node.expr e).Between p.line last) (hbody : AllLie p.line last body) :
    (handler (.clause kind name body p)).Lies p.line last := by
  refine lies_of_children rfl (fun q hq => ?_) (hbody.under ?_ (between_option hkind))
  · cases hq
    exact ⟨Nat.le_refl _, le⟩
  · simp [Node.isPlain]

end

end Stmt

/-! ### Definitions -/

theorem foldl_min_le (es : List Expr) (n : Nat) :
    es.foldl (fun n d => min n d.pos.line) n ≤ n ∧
      ∀ d ∈ es, es.foldl (fun n d => min n d.pos.line) n ≤ d.pos.line := by
  induction es generalizing n with
  | nil => exact ⟨Nat.le_refl n, fun _ hd => absurd hd List.not_mem_nil⟩
  | cons e es ih =>
    obtain ⟨le, each⟩ := ih (min n e.pos.line)
    refine ⟨Nat.le_trans le (Nat.min_le_left _ _), fun d hd => ?_⟩
    rcases List.mem_cons.1 hd with rfl | hd
    · exact Nat.le_trans le (Nat.min_le_right _ _)
    · exact each d hd

theorem le_foldl_min {es : List Expr} {n first : Nat} (le : first ≤ n)
    (each : ∀ d ∈ es, first ≤ d.pos.line) :
    first ≤ es.foldl (fun n d => min n d.pos.line) n := by
  induction es generalizing n with
  | nil => exact le
  | cons e es ih =>
    refine ih ?_ fun d hd => each d (List.mem_cons_of_mem _ hd)
    exact Nat.le_min.2 ⟨le, each e List.mem_cons_self⟩

namespace Definition

variable {d : Definition}

theorem first_le_pos : d.span.first ≤ d.pos.line := (foldl_min_le d.decorators d.pos.line).1

theorem pos_le_last : d.pos.line ≤ d.span.last := Nat.le_max_right _ _

theorem endLine_le_last : d.endLine ≤ d.span.last := Nat.le_max_left _ _

/-- A definition that has been read up to its last line, with decorators above its header. -/
theorem lies {s : Stmt} {first : Nat} {header : List Node}
    (defined : (stmt s).toDefinition? = some d) (same : s.pos = d.pos) (named : d.name ≠ topName)
    (before : first ≤ d.pos.line) (after : d.pos.line ≤ d.endLine)
    (above : ∀ e ∈ d.decorators, first ≤ e.pos.line ∧ e.pos.line ≤ d.pos.line)
    (split : s.parts = header ++ d.body.map stmt) (plain : ∀ m ∈ header, m.isPlain = true)
    (hheader : ∀ m ∈ header, m.Between first d.endLine)
    (hbody : Stmt.AllLie d.pos.line d.endLine d.body)
    (inner : ∀ b ∈ d.body, ∀ t ∈ (stmt b).spans, d.pos.line < t.first) :
    (stmt s).Lies first d.endLine := by
  have children : AllLie first d.endLine s.parts := by
    rw [split]
    exact (hbody.mono before (Nat.le_refl _)).under plain hheader
  have within {b : Stmt} (hb : b ∈ d.body) : (stmt b).Lies d.pos.line d.endLine :=
    hbody.each _ (List.mem_map_of_mem hb)
  refine ⟨Stmt.between_of_parts same before after fun m hm => (children.each m hm).between,
    fun t ht => ?_, ?_⟩
  · rcases mem_spans_cases ht with ⟨d', defined', rfl⟩ | ⟨m, hm, ht⟩
    · obtain rfl := Option.some.inj (defined.symm.trans defined')
      refine ⟨le_foldl_min before fun e he => (above e he).1, ?_⟩
      exact Nat.max_le.2 ⟨Nat.le_refl _, after⟩
    · exact (children.each m hm).spans t ht
  · refine laminar_of_children children.apart (fun d' defined' => ?_)
      fun m hm => (children.each m hm).laminar
    obtain rfl := Option.some.inj (defined.symm.trans defined')
    exact ⟨named, fun e he => (above e he).2, fun b hb => (within hb).between,
      fun b hb t ht => ⟨inner b hb t ht, ((within hb).spans t ht).2⟩⟩

end Definition

end Footprint
