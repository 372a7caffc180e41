import Footprint.Proofs.FormedScripts
import Footprint.Proofs.ReadBlocks

set_option autoImplicit false

/-!
A script that is written as text is read back from it.
-/

namespace Footprint

open Token Grammar Outline

variable {s : Script}

theorem Node.Writable.body (h : (Node.script s).Writable) : ∀ t ∈ s.body, (Node.stmt t).Writable :=
  fun _ ht => h.child (List.mem_map_of_mem ht)

/-- The text of a script has the tokens of its statements. -/
theorem Script.tokenize_text (h : (Node.script s).Writable) :
    ∃ ts, ts.map Token.kind = allKindsOf (Stmt.outlineOf s.body) ++ [.mark .endOfFile] ∧
      tokenize s.text = .ok ts :=
  Outline.tokenize_textOf (Stmt.fits_outlineOf s.body h.body)

/-- A script of any shape that the parser makes is read back from its text, but for places. Its
definitions are numbered in the order of their headers, and with each function the names are stored
that it binds. -/
theorem parse_text (s : Script) (h : (Node.script s).Writable) :
    ∃ t, parse s.text = .ok t ∧ t.unplaced = s.unplaced ∧ t.IsNumbered ∧
      (Node.script t).IsBound := by
  obtain ⟨ts, kinds, tokens⟩ := Script.tokenize_text h
  obtain ⟨body, parsed, same⟩ :=
    Parser.parse_of_consumes tokens kinds (Parser.consumes_program s.body h.body)
  exact ⟨⟨body⟩, parsed, congrArg Script.mk same, isNumbered_of_parse parsed,
    isBound_of_parse parsed⟩

/-- A function with a default value and a try statement, which ends with a text of both kinds of
quotes, and a chain of comparisons. -/
theorem parse_text_function :
    let p := Position.start
    let a := Expr.name "a" p
    let quotes := Expr.const (.str "\"it's\\\n") p
    let body : List Stmt := [.tryBlock [.ret (some a) p] [] [] [.expr quotes p] p]
    let f : FunctionHead :=
      ⟨"f", false, [⟨"a", none, none, p⟩, ⟨"b", none, some (.const (.int 2) p), p⟩], [], none, 0,
        ⟨[], [], []⟩, p, 0⟩
    let s : Script := ⟨[.function f body,
      .expr (.compare (.unary .neg a p) [(.lt, .list [] p), (.notIn, .tuple [a] p)] p) p]⟩
    (Node.script s).Writable ∧ ∃ t, parse s.text = .ok t ∧ t.unplaced = s.unplaced ∧
      t.IsNumbered ∧ (Node.script t).IsBound := by
  intro p a quotes body f s
  have ordered : WellOrdered f.params := ⟨by decide, by simp [f]⟩
  have named : isIdentifier "a" = true ∧ isIdentifier "b" = true ∧ isIdentifier "f" = true := by
    decide
  have writable : (Node.script s).Writable := by
    simp [Node.Writable, Node.walk_eq, Node.children, Stmt.parts, Expr.parts, Node.Shaped,
      Stmt.Shaped, Node.isFloat, s, body, f, a, quotes, named, ordered]
  exact ⟨writable, parse_text s writable⟩

end Footprint
