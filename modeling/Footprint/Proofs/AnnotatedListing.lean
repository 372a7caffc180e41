import Footprint.Proofs.Covered
import Footprint.Proofs.DefinitionLines
import Footprint.Trace.Listing

set_option autoImplicit false

/-!
The annotated listing shows what has been recorded. A line recorded for a name that is defined once
lies in the span of that definition, so it is marked on one line of the listing, and the listing has
nothing else but the other lines of such definitions.
-/

namespace Footprint

open Token Glyph

/-! ### Lines that are told and spans -/

namespace Node

variable {c d : Code} {n m : Node}

theorem owner_cases (c : Code) (n : Node) : n.owner c = c ∨ n.code? = some (n.owner c) := by
  unfold owner
  split
  · exact .inr rfl
  · exact .inr rfl
  · exact .inl rfl

/-- What belongs to a code object is below the definition of that. -/
theorem mem_owned_cases (h : (d, m) ∈ n.owned c) :
    d = c ∨ ∃ k ∈ n.walk, k.code? = some d ∧ m ∈ k.walk := by
  induction n using below generalizing c with
  | node n ih =>
    have inside : m ∈ n.walk := by
      rw [← map_snd_owned c]
      exact List.mem_map_of_mem h
    rw [owned_eq, List.mem_cons, List.mem_flatMap] at h
    rcases h with same | ⟨child, hchild, h⟩
    · exact .inl (Prod.mk.inj same).1
    · rcases ih child hchild h with rfl | ⟨k, hk, defined, below⟩
      · rcases owner_cases c n with same | defined
        · exact .inl same
        · refine .inr ⟨n, ?_, defined, inside⟩
          rw [walk_eq]
          exact List.mem_cons_self
      · refine .inr ⟨k, ?_, defined, below⟩
        rw [walk_eq]
        exact List.mem_cons_of_mem _ (List.mem_flatMap.2 ⟨child, hchild, hk⟩)

theorem definition?_of_code? (h : n.code? = some c) :
    ∃ span, n.definition? = some (c.name, span) := by
  unfold code? at h
  split at h
  · cases h
    exact ⟨_, rfl⟩
  · cases h
    exact ⟨_, rfl⟩
  · cases h

theorem mem_hits_cases {hit : LineHit} (h : hit ∈ n.hits c) : hit.line ∈ n.told ∧
    (hit.function = c.name ∨ ∃ span, n.definition? = some (hit.function, span)) := by
  unfold hits at h
  split at h
  · next s =>
    rcases List.mem_append.1 h with line | header
    · obtain ⟨l, hl, rfl⟩ := List.mem_map.1 line
      exact ⟨hl, .inl rfl⟩
    · cases s with
      | classDef head body =>
        rw [List.mem_singleton.1 header]
        refine ⟨?_, .inr ⟨_, rfl⟩⟩
        simp [told, Stmt.toldLines, Stmt.isDeclaration, Stmt.pos]
      | _ => cases header
  · rw [List.mem_singleton.1 h]
    exact ⟨List.mem_singleton_self _, .inl rfl⟩
  · cases h

end Node

namespace Script

variable {s : Script} {lines : Nat}

/-- What may be hit lies in the span of a definition with that name, if it is not of the top
level. -/
theorem span_of_mem_hits (fits : (Node.script s).AllFit 1 lines) {hit : LineHit}
    (h : hit ∈ s.hits) : hit.function = topName ∨ ∃ span,
      (hit.function, span) ∈ (Registry.ofScript s).entries ∧
        span.first ≤ hit.line ∧ hit.line ≤ span.last := by
  obtain ⟨⟨c, m⟩, owned, h⟩ := List.mem_flatMap.1 h
  have registered {k : Node} {name : String} {span : Span} (hk : k ∈ (Node.script s).walk)
      (defined : k.definition? = some (name, span)) :
      (name, span) ∈ (Registry.ofScript s).entries := List.mem_filterMap.2 ⟨k, hk, defined⟩
  have walked : m ∈ (Node.script s).walk := by
    rw [← Node.map_snd_owned (.top s)]
    exact List.mem_map_of_mem owned
  obtain ⟨told, named | ⟨span, defined⟩⟩ := Node.mem_hits_cases h
  · rcases Node.mem_owned_cases owned with rfl | ⟨k, hk, code, below⟩
    · exact .inl named
    · obtain ⟨span, defined⟩ := Node.definition?_of_code? code
      obtain ⟨-, -, -, holds⟩ := (fits k hk).definition _ _ defined
      refine .inr ⟨span, ?_, holds m below _ told⟩
      rw [named]
      exact registered hk defined
  · obtain ⟨-, -, -, holds⟩ := (fits m walked).definition _ _ defined
    refine .inr ⟨span, registered walked defined, holds m ?_ _ told⟩
    rw [Node.walk_eq]
    exact List.mem_cons_self

/-- The span is that of the one definition of the name in the script, at whatever depth. -/
def DefinesOnce (s : Script) (name : String) (span : Span) : Prop :=
  ((Node.script s).walk.filterMap Node.definition?).filter (·.1 = name) = [(name, span)]

theorem DefinesOnce.iff {name : String} {span : Span} (h : s.DefinesOnce name span)
    {span' : Span} : (name, span') ∈ (Registry.ofScript s).entries ↔ span' = span := by
  have filtered : (name, span') ∈
      ((Node.script s).walk.filterMap Node.definition?).filter (·.1 = name) ↔ span' = span := by
    rw [show _ = [(name, span)] from h, List.mem_singleton, Prod.mk.injEq]
    exact and_iff_right rfl
  rw [← filtered, List.mem_filter]
  exact (and_iff_left (by simp)).symm

theorem spans_eq (name : String) : (Registry.ofScript s).spans name =
    (((Node.script s).walk.filterMap Node.definition?).filter (·.1 = name)).map Prod.snd := by
  change ((Node.script s).walk.filterMap Node.definition?).filterMap _ = _
  induction (Node.script s).walk.filterMap Node.definition? with
  | nil => rfl
  | cons e es ih =>
    by_cases h : e.1 = name
    · simp [h, ih]
    · simp [h, ih]

theorem resolve?_eq_some {name : String} {span : Span} :
    (Registry.ofScript s).resolve? name = some span ↔ s.DefinesOnce name span := by
  unfold Registry.resolve?
  rw [spans_eq]
  constructor
  · intro h
    split at h
    · next only one =>
      obtain ⟨e, he, rfl⟩ := List.map_eq_singleton_iff.1 one
      have mem : e ∈ ((Node.script s).walk.filterMap Node.definition?).filter (·.1 = name) := by
        rw [he]
        exact List.mem_singleton_self _
      have named : e.1 = name := by simpa using (List.mem_filter.1 mem).2
      unfold DefinesOnce
      rw [he, ← named, ← Option.some.inj h]
    · cases h
  · intro h
    rw [show _ = [(name, span)] from h]
    rfl

end Script

/-! ### Lines of the source -/

theorem parse_empty : parse "" = .ok ⟨[]⟩ := by
  cbv

namespace Program

variable {p : Program} {source : String}

theorem ofSource_eq_ok (parsed : ofSource source = .ok p) :
    p.source = source ∧ parse source = .ok p.script := by
  unfold ofSource at parsed
  split at parsed
  · next script hscript =>
    cases parsed
    exact ⟨rfl, hscript⟩
  · cases parsed

/-- What is told in a script and its definitions stand on the lines of the source. -/
theorem allFit_ofSource (parsed : ofSource source = .ok p) :
    (Node.script p.script).AllFit 1 (Text.lines source).length := by
  obtain ⟨-, hscript⟩ := ofSource_eq_ok parsed
  refine Node.allFit_of_children ⟨fun _ hl => absurd hl List.not_mem_nil, fun _ _ hs => ?_⟩ ?_
  · exact absurd hs (by simp [Node.definition?])
  · intro m hm
    obtain ⟨s, hs, rfl⟩ := List.mem_map.1 hm
    have fits := allFit_of_parse (fun g hg => Text.line_le_length hg) hscript s hs
    by_cases empty : source = ""
    · subst empty
      have none := Except.ok.inj (parse_empty.symm.trans hscript)
      rw [← none] at hs
      cases hs
    · have some : 1 ≤ (Text.lines source).length := by
        have chars : source.toList ≠ [] := by simpa using empty
        obtain ⟨c, cs, hcs⟩ := List.exists_cons_of_ne_nil chars
        have first : (⟨c, .start⟩ : Glyph) ∈ ofChars .start source.toList := by
          rw [hcs]
          exact List.mem_cons_self
        exact Text.line_le_length first
      rwa [Nat.max_eq_right some] at fits

/-! ### What is listed -/

/-- The lines of a listing, each with the name for which it is listed. -/
def rows (p : Program) (c : Coverage) : List LineHit :=
  c.names.flatMap fun name => (p.registry.resolve? name).toList.flatMap fun s =>
    s.lines.map (LineHit.mk name)

variable {c : Coverage} {row : LineHit}

theorem mem_names {name : String} : name ∈ c.names ↔ ∃ hit ∈ c, hit.function = name := by
  unfold Coverage.names
  rw [List.mem_eraseDups, List.mem_map]
  rfl

theorem mem_rows : row ∈ p.rows c ↔ ∃ span, p.script.DefinesOnce row.function span ∧
    (span.first ≤ row.line ∧ row.line ≤ span.last) ∧ ∃ hit ∈ c, hit.function = row.function := by
  obtain ⟨name, n⟩ := row
  unfold rows
  simp only [List.mem_flatMap, List.mem_map, Option.mem_toList, mem_names, Span.mem_lines]
  constructor
  · rintro ⟨name', named, span, resolved, n', within, same⟩
    obtain ⟨rfl, rfl⟩ := LineHit.mk.inj same
    exact ⟨span, Script.resolve?_eq_some.1 resolved, within, named⟩
  · rintro ⟨span, once, within, named⟩
    exact ⟨name, named, span, Script.resolve?_eq_some.2 once, n, within, rfl⟩

/-- The first occurrences in an ascending list. -/
theorem pairwise_eraseDups {names : List String}
    (h : names.Pairwise fun a b => a < b ∨ a = b) : names.eraseDups.Pairwise (· < ·) := by
  induction hn : names.length using Nat.strong_induction_on generalizing names with
  | _ n ih =>
    cases names with
    | nil => exact .nil
    | cons a as =>
      obtain ⟨first, others⟩ := List.pairwise_cons.1 h
      rw [List.eraseDups_cons]
      refine .cons (fun b hb => ?_) (ih _ ?_ (others.sublist List.filter_sublist) rfl)
      · rw [List.mem_eraseDups, List.mem_filter] at hb
        exact (first b hb.1).resolve_right fun same => by simp [same] at hb
      · rw [← hn, List.length_cons]
        exact Nat.lt_succ_of_le (List.length_filter_le _ _)

theorem ascending_names (c : Coverage) : c.names.Pairwise (· < ·) := by
  apply pairwise_eraseDups
  rw [List.pairwise_map]
  exact c.ascending.imp fun h => h.imp id And.left

theorem ascending_rows (p : Program) (c : Coverage) : (p.rows c).Pairwise LineHit.Before := by
  unfold rows
  rw [List.pairwise_flatMap]
  refine ⟨fun name _ => ?_, (ascending_names c).imp fun {a b} before x hx y hy => ?_⟩
  · cases p.registry.resolve? name with
    | none => exact .nil
    | some s =>
      simp only [Option.toList_some, List.flatMap_singleton]
      rw [List.pairwise_map]
      exact (List.pairwise_lt_range' 1).imp fun h => .inr ⟨rfl, h⟩
  · obtain ⟨_, -, hx⟩ := List.mem_flatMap.1 hx
    obtain ⟨_, -, rfl⟩ := List.mem_map.1 hx
    obtain ⟨_, -, hy⟩ := List.mem_flatMap.1 hy
    obtain ⟨_, -, rfl⟩ := List.mem_map.1 hy
    exact .inl before

theorem distinct_rows (p : Program) (c : Coverage) : (p.rows c).Nodup := by
  refine (ascending_rows p c).imp ?_
  rintro a _ before rfl
  exact a.not_before_self before

theorem listing_eq (p : Program) (c : Coverage) : p.listing c =
    String.join ((p.rows c).map fun row =>
      listedLine (row ∈ c) row.line ((Text.lines p.source).toArray[row.line - 1]?.getD "")) := by
  unfold listing rows
  dsimp only
  induction c.names with
  | nil => rfl
  | cons name names ih =>
    rw [List.map_cons, String.join_cons, ih, List.flatMap_cons, List.map_append, String.join_append]
    congr 1
    cases p.registry.resolve? name with
    | none => rfl
    | some s => simp [Coverage.listDefinition, Function.comp_def]

end Program

namespace Interpreter

variable {ω : Type} {i : Interpreter ω} {μ : Monitors ω} {p : Program} {limits : Limits}
  {source : String}

theorem Hosted.mem_hits (hosted : Hosted p limits i μ) {t : Tracer} (ht : t ∈ μ.tracers)
    {hit : LineHit} (h : hit ∈ t.log) : hit ∈ p.script.hits := hosted.kept.within t ht hit h

/-- The listing of what a tracer has recorded in whatever a host does with a parsed program has, for
each name with a hit that is defined once, by ascending names, the lines from the first to the last
one of that definition: a mark if the line was hit, its number, and what stands on the line without
the blanks at its end. Each hit of such a name is on just one of these lines, and they are lines of
the source. -/
theorem listing_faithful (parsed : Program.ofSource source = .ok p)
    (hosted : Hosted p limits i μ) {t : Tracer} (ht : t ∈ μ.tracers) :
    ∃ rows : List LineHit, rows.Pairwise LineHit.Before ∧
      (∀ row, row ∈ rows ↔ ∃ span, p.script.DefinesOnce row.function span ∧
        (span.first ≤ row.line ∧ row.line ≤ span.last) ∧
        ∃ hit ∈ t.log, hit.function = row.function) ∧
      (∀ hit ∈ t.log, (∃ span, p.script.DefinesOnce hit.function span) → rows.count hit = 1) ∧
      p.listing t.coverage = String.join (rows.map fun row =>
        (if row ∈ t.log then "| " else "  ") ++
          (if (toString row.line).length < 2 then " " else "") ++ toString row.line ++ "  " ++
          String.ofList (Text.trimEnd (onLine (ofChars .start source.toList) row.line)) ++ "\n") ∧
      ∀ name span, p.script.DefinesOnce name span →
        1 ≤ span.first ∧ span.last ≤ (Text.lines source).length := by
  have recorded {hit : LineHit} : hit ∈ t.coverage ↔ hit ∈ t.log :=
    Coverage.mem_ofList.trans Array.mem_toList_iff
  have fits := Program.allFit_ofSource parsed
  have within {name : String} {span : Span} (once : p.script.DefinesOnce name span) :
      name ≠ topName ∧ 1 ≤ span.first ∧ span.last ≤ (Text.lines source).length := by
    obtain ⟨k, hk, defined⟩ := List.mem_filterMap.1 (once.iff.2 rfl)
    obtain ⟨named, first, last, -⟩ := (fits k hk).definition _ _ defined
    exact ⟨named, first, last⟩
  refine ⟨p.rows t.coverage, p.ascending_rows _, fun row => ?_, fun hit hhit => ?_, ?_, ?_⟩
  · simp only [Program.mem_rows, recorded]
  · rintro ⟨span, once⟩
    have inside : span.first ≤ hit.line ∧ hit.line ≤ span.last := by
      rcases Script.span_of_mem_hits fits (hosted.mem_hits ht hhit) with top | ⟨span', known, lies⟩
      · exact absurd top (within once).1
      · rwa [once.iff.1 known] at lies
    apply List.count_eq_one_of_mem (p.distinct_rows _)
    exact Program.mem_rows.2 ⟨span, once, inside, hit, recorded.2 hhit, rfl⟩
  · rw [Program.listing_eq]
    congr 1
    refine List.map_congr_left fun row hrow => ?_
    obtain ⟨span, once, inside, -⟩ := Program.mem_rows.1 hrow
    have first : 0 < row.line := Nat.lt_of_lt_of_le (within once).2.1 inside.1
    obtain ⟨same, -⟩ := Program.ofSource_eq_ok parsed
    unfold listedLine
    rw [same, Text.trimEnd_lines source first]
    simp only [recorded, decide_eq_true_eq]
  · exact fun name span once => (within once).2

/-- A function of two lines that is called once: the line of its body is listed once. -/
theorem listing_faithful_call :
    let head : FunctionHead :=
      { name := "f", isAsync := false, params := [], decorators := [], returns := none, code := 1,
        bound := ⟨[], [], []⟩, pos := .start, endLine := 2 }
    let called : Expr := .call (.name "f" ⟨3, 1⟩) [] ⟨3, 1⟩
    let p : Program := ⟨"def f():\n    pass\nf()\n",
      ⟨[.function head [.pass ⟨2, 5⟩], .expr called ⟨3, 1⟩]⟩⟩
    let i : Interpreter Unit := (new p .default .steady).enter 0
    Program.ofSource p.source = .ok p ∧
    ∃ r j ν, i.run 12 ⟨#[.new], ()⟩ = some (r, j, ν) ∧ ∃ t ∈ ν.tracers,
      ⟨"f", 2⟩ ∈ t.log ∧ p.script.DefinesOnce "f" ⟨1, 2⟩ ∧
        ∃ rows : List LineHit, rows.Pairwise LineHit.Before ∧ rows.count ⟨"f", 2⟩ = 1 := by
  intro head called p i
  have parsed : Program.ofSource p.source = .ok p := by cbv
  have ran : (i.run 12 ⟨#[.new], ()⟩).map (fun r => r.2.2.tracers.toList.map (·.log.toList)) =
      some [[⟨"<module>", 1⟩, ⟨"<module>", 3⟩, ⟨"f", 2⟩]] := by decide +kernel
  obtain ⟨⟨r, j, ν⟩, ended, logs⟩ := Option.map_eq_some_iff.1 ran
  obtain ⟨t, tracers, log⟩ := List.map_eq_singleton_iff.1 logs
  have ht : t ∈ ν.tracers := by
    rw [← Array.mem_toList_iff, tracers]
    exact List.mem_singleton_self t
  have hit : ⟨"f", 2⟩ ∈ t.log := by
    rw [← Array.mem_toList_iff, log]
    simp
  have once : p.script.DefinesOnce "f" ⟨1, 2⟩ := by
    unfold Script.DefinesOnce
    cbv
  have hosted : Hosted p .default j ν := by
    refine .run (.monitors (.listen (.new .steady ()) (.tracer 0 .none)) fun t ht => .inl ?_) ended
    obtain rfl : t = .new := by simpa using ht
    rfl
  obtain ⟨rows, ascending, -, listed, -⟩ := listing_faithful parsed hosted ht
  exact ⟨parsed, r, j, ν, ended, t, ht, hit, once, rows, ascending, listed _ hit ⟨_, once⟩⟩

end Interpreter

end Footprint
