import Footprint.Machine.Frame
import Footprint.Proofs.Forms
import Footprint.Trace.Coverage

set_option autoImplicit false

/-!
The text of a coverage set tells the set. A hit is written so that it can be read off the beginning
of a text: no name has a quote in it, and a number in decimal has no bracket. From that a list of
hits is read off its text, one hit after the other.
-/

namespace Footprint

/-- Names that hits have: that of top-level code, and those that the lexer finds in some text. -/
inductive IsHitName : String → Prop
  | top : IsHitName topName
  | token {source : String} {ts : List Token} {t : Token} {name : String} :
      tokenize source = .ok ts → t ∈ ts → t.kind = .name name → IsHitName name

theorem quote_not_mem_of_isIdentifier {name : String}
    (identifier : Token.isIdentifier name = true) : '\'' ∉ name.toList := by
  obtain ⟨c, cs, chars, start, parts⟩ := Token.isWord_iff.1 (Bool.and_eq_true_iff.1 identifier).1
  intro mem
  rcases List.mem_cons.1 (chars ▸ mem) with rfl | mem
  · exact absurd start (by decide)
  · exact absurd (List.all_eq_true.1 parts _ mem) (by decide)

theorem IsHitName.quote_not_mem {name : String} (h : IsHitName name) : '\'' ∉ name.toList := by
  cases h with
  | top => decide
  | token tokens mem kind =>
    obtain ⟨cs, spells⟩ := Token.spelled_of_tokenize tokens _ mem (kind ▸ rfl)
    rw [kind] at spells
    cases spells with
    | name identifier => exact quote_not_mem_of_isIdentifier identifier

/-! ### Reading off -/

/-- Two texts that agree have the same part before the first of some character. -/
theorem append_cons_inj {c : Char} {xs ys as bs : List Char} (hx : c ∉ xs) (hy : c ∉ ys)
    (same : xs ++ c :: as = ys ++ c :: bs) : xs = ys ∧ as = bs := by
  induction xs generalizing ys with
  | nil =>
    cases ys with
    | nil => exact ⟨rfl, (List.cons.inj same).2⟩
    | cons y ys => exact absurd ((List.cons.inj same).1 ▸ List.mem_cons_self) hy
  | cons x xs ih =>
    cases ys with
    | nil => exact absurd ((List.cons.inj same).1 ▸ List.mem_cons_self) hx
    | cons y ys =>
      obtain ⟨rfl, tail⟩ := List.cons.inj same
      obtain ⟨rfl, rest⟩ := ih (fun h => hx (List.mem_cons_of_mem _ h))
        (fun h => hy (List.mem_cons_of_mem _ h)) tail
      exact ⟨rfl, rest⟩

namespace LineHit

variable {a b : LineHit} {as bs : List LineHit} {cs ds : List Char}

/-- The text of a hit, by characters. -/
def chars (h : LineHit) : List Char :=
  "('".toList ++ (h.function.toList ++ '\'' :: (", ".toList ++ (h.line.repr.toList ++ [')'])))

/-- A hit is read off the beginning of a text. -/
theorem chars_append_inj (ha : IsHitName a.function) (hb : IsHitName b.function)
    (same : a.chars ++ cs = b.chars ++ ds) : a = b ∧ cs = ds := by
  have bracket (n : Nat) : ')' ∉ n.repr.toList := fun mem =>
    absurd (Token.isDigit_of_mem_toDigits (Nat.toList_repr ▸ mem)) (by decide)
  simp only [chars, List.append_assoc, List.cons_append, List.append_cancel_left_eq] at same
  obtain ⟨name, same⟩ := append_cons_inj ha.quote_not_mem hb.quote_not_mem same
  obtain ⟨number, rest⟩ := append_cons_inj (bracket _) (bracket _) (List.append_cancel_left same)
  have function : a.function = b.function := String.toList_inj.1 name
  have line : a.line = b.line := Nat.repr_injective (String.toList_inj.1 number)
  exact ⟨by cases a; cases b; simp_all, rest⟩

/-- What follows the first hit in the text of a list of hits. -/
def restChars (hs : List LineHit) : List Char :=
  hs.flatMap (fun h => ", ".toList ++ h.chars) ++ ['\x7d']

theorem restChars_inj (ha : ∀ h ∈ as, IsHitName h.function) (hb : ∀ h ∈ bs, IsHitName h.function)
    (same : restChars as = restChars bs) : as = bs := by
  induction as generalizing bs with
  | nil =>
    cases bs with
    | nil => rfl
    | cons b bs => simp [restChars] at same
  | cons a as ih =>
    cases bs with
    | nil => simp [restChars] at same
    | cons b bs =>
      simp only [restChars, List.flatMap_cons, List.append_assoc, List.append_cancel_left_eq]
        at same
      obtain ⟨rfl, rest⟩ :=
        chars_append_inj (ha _ List.mem_cons_self) (hb _ List.mem_cons_self) same
      rw [ih (fun h mem => ha h (List.mem_cons_of_mem _ mem))
        (fun h mem => hb h (List.mem_cons_of_mem _ mem)) rest]

/-- The text that lists these hits in this order. -/
def listText (hs : List LineHit) : String :=
  if hs = [] then "set()"
  else "\x7b" ++ ", ".intercalate (hs.map fun h =>
    "('" ++ h.function ++ "', " ++ h.line.repr ++ ")") ++ "\x7d"

theorem toList_listText_cons (h : LineHit) (hs : List LineHit) :
    (listText (h :: hs)).toList = '\x7b' :: (h.chars ++ restChars hs) := by
  have joined (k : LineHit) : (", ".intercalate ((k :: hs).map fun h =>
      "('" ++ h.function ++ "', " ++ h.line.repr ++ ")") ++ "\x7d").toList =
        k.chars ++ restChars hs := by
    induction hs generalizing k with
    | nil => simp [chars, restChars]
    | cons h hs ih =>
      simp only [List.map_cons] at ih ⊢
      rw [String.intercalate_cons_cons, String.append_assoc, String.toList_append, ih]
      simp [chars, restChars]
  rw [listText, if_neg (List.cons_ne_nil _ _), String.append_assoc, String.toList_append, joined]
  rfl

/-- Hits are read off the text that lists them. -/
theorem listText_inj (ha : ∀ h ∈ as, IsHitName h.function) (hb : ∀ h ∈ bs, IsHitName h.function)
    (same : listText as = listText bs) : as = bs := by
  have same : (listText as).toList = (listText bs).toList := congrArg String.toList same
  cases as with
  | nil =>
    cases bs with
    | nil => rfl
    | cons b bs =>
      rw [toList_listText_cons] at same
      exact absurd (List.cons.inj same).1 (by decide)
  | cons a as =>
    cases bs with
    | nil =>
      rw [toList_listText_cons] at same
      exact absurd (List.cons.inj same).1 (by decide)
    | cons b bs =>
      rw [toList_listText_cons, toList_listText_cons] at same
      obtain ⟨rfl, rest⟩ := chars_append_inj (ha _ List.mem_cons_self) (hb _ List.mem_cons_self)
        (List.cons.inj same).2
      rw [restChars_inj (fun h mem => ha h (List.mem_cons_of_mem _ mem))
        (fun h mem => hb h (List.mem_cons_of_mem _ mem)) rest]

/-! ### The order -/

def codePoints (s : String) : List Nat := s.toList.map Char.toNat

/-- The order of texts is that of their code points, from the first one on. -/
theorem codePoints_lt {s t : String} (h : s < t) : codePoints s < codePoints t :=
  List.map_lt (fun _ _ lt => UInt32.lt_iff_toNat_lt.1 lt) h

/-- First come hits with a lower name, by code points, and in a function those on lower lines. -/
def Lower (a b : LineHit) : Prop :=
  codePoints a.function < codePoints b.function ∨ a.function = b.function ∧ a.line < b.line

theorem Before.lower (h : Before a b) : Lower a b := h.imp_left codePoints_lt

end LineHit

namespace Coverage

/-- The hits have names that can come up. -/
def IsNamed (c : Coverage) : Prop := ∀ h ∈ c, IsHitName h.function

theorem text_eq (c : Coverage) : c.text = LineHit.listText c.hits := by
  simp only [text, LineHit.listText, List.isEmpty_iff]
  rfl

theorem nodup_hits (c : Coverage) : c.hits.Nodup := by
  refine c.ascending.imp fun {a b} before same => ?_
  subst same
  exact a.not_before_self before

/-- What the text of a set tells about it. -/
structure Tells (c : Coverage) : Prop where
  /-- No other set has the text. -/
  only : ∀ d : Coverage, d.IsNamed → d.text = c.text → d = c
  /-- The text can be read as a list of hits in one way, and so it lists each hit of the set once
  and no others, in ascending order. -/
  lists : ∃ hs : List LineHit, c.text = LineHit.listText hs ∧
    (∀ ks : List LineHit, (∀ k ∈ ks, IsHitName k.function) → LineHit.listText ks = c.text →
      ks = hs) ∧
    (∀ h, hs.count h = if h ∈ c then 1 else 0) ∧ hs.Pairwise LineHit.Lower

theorem text_tells {c : Coverage} (named : c.IsNamed) : c.Tells where
  only d named' same := by
    obtain ⟨as, ascending⟩ := d
    obtain ⟨bs, ascending'⟩ := c
    obtain rfl : as = bs := LineHit.listText_inj named' named (by rwa [text_eq, text_eq] at same)
    rfl
  lists := by
    refine ⟨c.hits, c.text_eq, fun ks named' same => ?_, fun h => ?_,
      c.ascending.imp LineHit.Before.lower⟩
    · exact LineHit.listText_inj named' named (same.trans c.text_eq)
    · exact c.nodup_hits.count

/-- A function beside top-level code, and numbers of one digit and of two. -/
theorem text_tells_function :
    let c := Coverage.ofList [⟨"f", 10⟩, ⟨"f", 2⟩, ⟨"<module>", 1⟩]
    c.text = "\x7b('<module>', 1), ('f', 2), ('f', 10)\x7d" ∧ c.IsNamed ∧ c.Tells := by
  intro c
  have named : c.IsNamed := by
    have f : IsHitName "f" := by
      have tokens : tokenize "f\n" = .ok [⟨.name "f", ⟨1, 1⟩, 1⟩, ⟨.mark .newline, ⟨1, 2⟩, 2⟩,
        ⟨.mark .endOfFile, ⟨2, 1⟩, 2⟩] := by cbv
      exact .token tokens List.mem_cons_self rfl
    intro h mem
    have members : h ∈ [⟨"f", 10⟩, ⟨"f", 2⟩, (⟨"<module>", 1⟩ : LineHit)] := mem_ofList.1 mem
    simp only [List.mem_cons, List.not_mem_nil, or_false] at members
    rcases members with rfl | rfl | rfl
    · exact f
    · exact f
    · exact .top
  exact ⟨by decide, named, text_tells named⟩

end Coverage
end Footprint
