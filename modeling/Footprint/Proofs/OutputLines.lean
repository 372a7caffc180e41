import Mathlib.Data.List.Induction
import Footprint.Machine.Output

set_option autoImplicit false

/-!
What is written and what is kept of it. Every character of every write is in the lines or in what
follows the last of them, in the order in which they were written, and a line names the write that
ended it. A line may come of many writes and a write may make many lines, so all of this is said of
single characters first, each with the line of its write.
-/

namespace Footprint

namespace Output

/-- The output after these writes, one after another, each with the script line it is made from. -/
def ofWrites (writes : List (String × Nat)) : Output :=
  writes.foldl (fun o w => o.write w.1 w.2) .empty

/-- All that the writes write, in one text. -/
def joined (writes : List (String × Nat)) : String := String.join (writes.map Prod.fst)

/-- The lines, each with the line feed that ended it, in one text. -/
def ended (lines : List OutputLine) : String := String.join (lines.map fun l => l.text ++ "\n")

/-- The texts of the lines and of what follows them, and not what they came from. -/
def plain (o : Output) : List String × Option String :=
  (o.lines.toList.map OutputLine.text, o.pending.map OutputLine.text)

section Characters

variable {cs front back : List (Char × Nat)} {o : Output} {c : Char} {n : Nat}

/-- The characters of the writes, each with the line of its write. -/
def written (writes : List (String × Nat)) : List (Char × Nat) :=
  writes.flatMap fun w => w.1.toList.map (·, w.2)

/-- The characters of the lines, each of which is ended by a line feed. -/
def endedChars (lines : List OutputLine) : List Char :=
  lines.flatMap fun l => l.text.toList ++ ['\n']

theorem toList_ended (lines : List OutputLine) : (ended lines).toList = endedChars lines := by
  simp [ended, endedChars, String.toList_join, List.flatMap_def, Function.comp_def]

theorem toList_joined (writes : List (String × Nat)) :
    (joined writes).toList = (written writes).map Prod.fst := by
  simp [joined, written, String.toList_join, List.flatMap_def, Function.comp_def,
    List.map_flatten]

theorem ofWrites_eq (writes : List (String × Nat)) :
    ofWrites writes = (written writes).foldl (fun o x => o.put x.2 x.1) .empty := by
  simp [ofWrites, written, write, List.foldl_flatMap, List.foldl_map]

/-- A character of the writes stands in one of them, with all before it in front. -/
theorem exists_write {writes : List (String × Nat)}
    (split : written writes = front ++ (c, n) :: back) :
    ∃ before s t after, writes = before ++ (s ++ c.toString ++ t, n) :: after ∧
      joined before ++ s = String.ofList (front.map Prod.fst) := by
  induction writes generalizing front with
  | nil => simp [written] at split
  | cons w writes ih =>
    have split : w.1.toList.map (·, w.2) ++ written writes = front ++ (c, n) :: back := split
    obtain ⟨more, front_eq, rest⟩ | ⟨more, w_eq, rest⟩ := List.append_eq_append_iff.1 split
    · -- all of this write stands in front
      obtain ⟨before, s, t, after, writes_eq, front_more⟩ := ih rest
      refine ⟨w :: before, s, t, after, by rw [writes_eq, List.cons_append], ?_⟩
      rw [String.ext_iff] at front_more ⊢
      simpa [joined, front_eq, Function.comp_def] using front_more
    · cases more with
      | nil =>
        obtain ⟨before, s, t, after, writes_eq, front_more⟩ := @ih [] rest.symm
        refine ⟨w :: before, s, t, after, by rw [writes_eq, List.cons_append], ?_⟩
        rw [String.ext_iff] at front_more ⊢
        rw [List.append_nil] at w_eq
        simpa [joined, ← w_eq, Function.comp_def] using front_more
      | cons x more =>
        obtain ⟨rfl, rest⟩ := List.cons.inj rest
        obtain ⟨s, t, text, first, second⟩ := List.map_eq_append_iff.1 w_eq
        obtain ⟨d, t, rfl, at_c, -⟩ := List.map_eq_cons_iff.1 second
        obtain ⟨rfl, rfl⟩ := Prod.mk.inj at_c
        refine ⟨[], .ofList s, .ofList t, writes, ?_, ?_⟩
        · simp [Prod.ext_iff, String.ext_iff, text]
        · simp [joined, ← first, Function.comp_def]

/-- What has been kept of some characters: all of them, in lines without a line feed, each of which
bears the line of the character that ended it. -/
structure Keeps (cs : List (Char × Nat)) (o : Output) : Prop where
  all : endedChars o.lines.toList ++ o.pendingText.toList = cs.map Prod.fst
  unbroken : ∀ l ∈ o.lines.toList ++ o.pending.toList, '\n' ∉ l.text.toList
  pending_ne : ∀ l ∈ o.pending, l.text ≠ ""
  source : ∀ (k : Nat) (inside : k < o.lines.size), ∃ front back,
    cs = front ++ ('\n', o.lines[k].source) :: back ∧
      front.map Prod.fst ++ ['\n'] = endedChars (o.lines.toList.take (k + 1))

theorem keeps_empty : Keeps [] .empty where
  all := rfl
  unbroken := nofun
  pending_ne := nofun
  source := nofun

/-- A line feed ends what has been pending, any other character is added to it. -/
theorem put_eq (o : Output) (c : Char) (n : Nat) :
    o.put n c = if c = '\n' then ⟨o.lines.push ⟨o.pendingText, n⟩, none⟩
      else ⟨o.lines, some ⟨o.pendingText.push c, n⟩⟩ := by
  obtain ⟨lines, _ | ⟨text, line⟩⟩ := o <;> rfl

theorem Keeps.unbroken_pending (kept : Keeps cs o) : '\n' ∉ o.pendingText.toList := by
  cases pending : o.pending with
  | none => simp [pendingText, pending]
  | some l => simpa [pendingText, pending] using kept.unbroken l (by simp [pending])

theorem Keeps.put (kept : Keeps cs o) (c : Char) (n : Nat) :
    Keeps (cs ++ [(c, n)]) (o.put n c) := by
  have unbroken : ∀ l ∈ o.lines, '\n' ∉ l.text.toList :=
    fun l inside => kept.unbroken l (List.mem_append_left _ inside.val)
  by_cases feed : c = '\n'
  · rw [put_eq, if_pos feed]
    subst feed
    refine ⟨?_, ?_, nofun, fun k inside => ?_⟩
    · simp [← kept.all, endedChars, pendingText]
    · simpa [or_imp, forall_and] using ⟨unbroken, kept.unbroken_pending⟩
    · obtain earlier | rfl := Nat.lt_or_eq_of_le (Nat.le_of_lt_succ (by simpa using inside))
      · obtain ⟨front, back, split, first⟩ := kept.source k earlier
        refine ⟨front, back ++ [('\n', n)], ?_, ?_⟩
        · simp [split, Array.getElem_push, earlier]
        · rw [first, Array.toList_push, List.take_append_of_le_length earlier]
      · refine ⟨cs, [], by simp, ?_⟩
        rw [List.take_of_length_le (by simp), Array.toList_push]
        simp [← kept.all, endedChars]
  · rw [put_eq, if_neg feed]
    refine ⟨?_, ?_, ?_, fun k inside => ?_⟩
    · simp [← kept.all, pendingText]
    · have new : '\n' ∉ (o.pendingText.push c).toList := by
        simpa [Ne.symm feed] using kept.unbroken_pending
      simpa [or_imp, forall_and] using ⟨unbroken, by simpa using new⟩
    · simp
    · obtain ⟨front, back, split, first⟩ := kept.source k inside
      exact ⟨front, back ++ [(c, n)], by simp [split], first⟩

theorem keeps_written (writes : List (String × Nat)) :
    Keeps (written writes) (ofWrites writes) := by
  rw [ofWrites_eq]
  induction written writes using List.reverseRecOn with
  | nil => exact keeps_empty
  | append_singleton cs x ih =>
    rw [List.foldl_append]
    exact ih.put x.1 x.2

theorem plain_put {o' : Output} {m : Nat} (same : o.plain = o'.plain) :
    (o.put n c).plain = (o'.put m c).plain := by
  obtain ⟨lines, pending⟩ := Prod.mk.inj same
  have pendingText : o.pendingText = o'.pendingText := by rw [Output.pendingText, pending]; rfl
  rw [put_eq, put_eq]
  split <;> simp [plain, lines, pendingText]

theorem plain_foldl {cs' : List (Char × Nat)} {o' : Output}
    (chars : cs.map Prod.fst = cs'.map Prod.fst) (same : o.plain = o'.plain) :
    (cs.foldl (fun o x => o.put x.2 x.1) o).plain =
      (cs'.foldl (fun o x => o.put x.2 x.1) o').plain := by
  induction cs generalizing cs' o o' with
  | nil =>
    obtain rfl := List.map_eq_nil_iff.1 chars.symm
    exact same
  | cons x cs ih =>
    obtain ⟨x', cs', rfl, first, rest⟩ := List.map_eq_cons_iff.1 chars.symm
    rw [List.foldl_cons, List.foldl_cons, first]
    exact ih rest.symm (plain_put same)

end Characters

/-- Which lines there are depends on the text alone, not on how many writes it comes in. -/
theorem plain_ofWrites {writes writes' : List (String × Nat)}
    (text : joined writes = joined writes') :
    (ofWrites writes).plain = (ofWrites writes').plain := by
  rw [ofWrites_eq, ofWrites_eq]
  refine plain_foldl ?_ rfl
  rw [← toList_joined, ← toList_joined, text]

theorem isEmpty_iff (writes : List (String × Nat)) :
    (ofWrites writes).isEmpty ↔ joined writes = "" := by
  obtain ⟨all, -, pending_ne, -⟩ := keeps_written writes
  rw [← toList_joined] at all
  constructor
  · intro empty
    obtain ⟨lines, pending⟩ : (ofWrites writes).lines = #[] ∧ (ofWrites writes).pending = none := by
      simpa [isEmpty] using empty
    rw [String.ext_iff, ← all, lines, pendingText, pending]
    rfl
  · intro nothing
    rw [nothing] at all
    obtain ⟨lines, pending⟩ := List.append_eq_nil_iff.1 all
    have lines : (ofWrites writes).lines = #[] :=
      Array.eq_empty_iff_forall_not_mem.2 (by simpa [endedChars] using lines)
    cases some : (ofWrites writes).pending with
    | none => simp [isEmpty, lines, some]
    | some l => exact absurd (by simpa [pendingText, some] using pending) (pending_ne l some)

/-- What an output has kept of the writes it comes from. -/
structure Records (writes : List (String × Nat)) (o : Output) : Prop where
  /-- The lines with their line feeds and what follows them are all that was written. -/
  all : ended o.lines.toList ++ o.pendingText = joined writes
  unbroken : ∀ l ∈ o.lines.toList ++ o.pending.toList, '\n' ∉ l.text.toList
  /-- A line bears the script line of the write with the line feed that ended it. -/
  source : ∀ (k : Nat) (inside : k < o.lines.size), ∃ before s t after,
    writes = before ++ (s ++ "\n" ++ t, o.lines[k].source) :: after ∧
      joined before ++ s ++ "\n" = ended (o.lines.toList.take (k + 1))
  isEmpty_iff : o.isEmpty ↔ ∀ w ∈ writes, w.1 = ""
  texts : o.texts =
    o.lines.toList.map OutputLine.text ++ if o.pendingText = "" then [] else [o.pendingText]
  /-- It makes no difference to the texts in how many writes something is written. -/
  split : ∀ (s t : String) (n m m' : Nat),
    (o.write (s ++ t) n).plain = ((o.write s m).write t m').plain

/-- Nothing that is written is lost or invented. -/
theorem output_records (writes : List (String × Nat)) : Records writes (ofWrites writes) where
  all := by
    rw [String.ext_iff, String.toList_append, toList_ended, toList_joined]
    exact (keeps_written writes).all
  unbroken := (keeps_written writes).unbroken
  source k inside := by
    obtain ⟨front, back, at_feed, lines⟩ := (keeps_written writes).source k inside
    obtain ⟨before, s, t, after, split, first⟩ := exists_write at_feed
    refine ⟨before, s, t, after, split, ?_⟩
    rw [first, String.ext_iff, toList_ended, ← lines, String.toList_append, String.toList_ofList]
    rfl
  isEmpty_iff := by
    rw [isEmpty_iff, String.ext_iff, joined, String.toList_join]
    simp
  texts := by
    cases some : (ofWrites writes).pending with
    | none => simp [Output.texts, pendingText, some]
    | some l =>
      have unlike : l.text ≠ "" := (keeps_written writes).pending_ne l some
      simp [Output.texts, pendingText, some, unlike]
  split s t n m m' := by
    have text : joined (writes ++ [(s ++ t, n)]) = joined (writes ++ [(s, m), (t, m')]) := by
      simp [joined]
    simpa [ofWrites] using plain_ofWrites text

example : (ofWrites [("a b\n", 3), ("partial", 4), (" done\nnext\n", 5)]).lines =
    #[⟨"a b", 3⟩, ⟨"partial done", 5⟩, ⟨"next", 5⟩] := by
  decide

end Output

end Footprint
