import Footprint.Viewer.Highlight

set_option autoImplicit false

/-!
Highlighting keeps the text of a line. The texts together are the line, whatever characters it has.
Highlighting is then followed once more by indices, as a cursor that goes over the characters of the
line and jumps over strings and comments: here each access says whether its index is in range. The
cursor gives the same texts, its accesses are all in range, and each turn takes it further.
-/

namespace Footprint.Highlight

/-- The characters of some texts, one text after the other. -/
def characters (ts : List StyledText) : List Char := ts.flatMap (·.text.toList)

@[simp] theorem characters_nil : characters [] = [] := rfl

@[simp] theorem characters_cons (t : StyledText) (ts : List StyledText) :
    characters (t :: ts) = t.text.toList ++ characters ts := by
  simp [characters]

@[simp] theorem characters_append (ts us : List StyledText) :
    characters (ts ++ us) = characters ts ++ characters us := by
  simp [characters]

@[simp] theorem characters_piece (cs : List Char) (style : Style) :
    characters (piece cs style) = cs := by
  cases cs <;> simp [piece]

theorem toList_unstyled (ts : List StyledText) :
    (StyledText.unstyled ts).toList = characters ts := by
  simp [StyledText.unstyled, characters, List.flatMap_map]

/-- The texts are the word that has begun and what is ahead of it. -/
theorem characters_highlightFrom (word cs : List Char) :
    characters (highlightFrom word cs) = word.reverse ++ cs := by
  fun_induction highlightFrom word cs with
  | case1 word => simp
  | case2 => simp
  | case3 word c cs _ _ inside ih => simp [ih, inside, cutString_append]
  | case4 word c cs _ _ _ ih => simp [ih]
  | case5 word c cs _ _ _ ih => simp [ih]

theorem characters_line (text : String) : characters (line text) = text.toList := by
  simp [line, characters_highlightFrom]

/-! ### The line by indices -/

/-- The characters between two indices, unless one of them is out of range. -/
def slice? (chars : Array Char) (start stop : Nat) : Option (List Char) :=
  if start ≤ stop ∧ stop ≤ chars.size then some (chars.extract start stop).toList else none

/-- Where the closing quote of a string is, from `index` on. Where there is none the result is past
the end, and an escape takes it one further. -/
def closing? (chars : Array Char) (quote : Char) (index : Nat) : Option Nat :=
  if index < chars.size then do
    let c ← chars[index]?
    if c = quote then some index
    else if c = '\\' then closing? chars quote (index + 2)
    else closing? chars quote (index + 1)
  else some index
termination_by chars.size - index

/-- How far a line has been highlighted: the texts so far, the word that has begun and the index of
the next character. -/
structure Cursor where
  texts : List StyledText
  word : List Char
  index : Nat

namespace Cursor

def start : Cursor := ⟨[], [], 0⟩

/-- One turn of the cursor; `none` if an index is out of range. A comment takes it to the end. -/
def turn? (chars : Array Char) (k : Cursor) : Option Cursor := do
  let c ← chars[k.index]?
  if c = '#' then
    let comment ← slice? chars k.index chars.size
    return ⟨k.texts ++ piece k.word .plain ++ [⟨.ofList comment, .ink Palette.muted⟩], [],
      chars.size⟩
  else if c = '"' ∨ c = '\'' then
    let closing ← closing? chars c (k.index + 1)
    let stop := min (closing + 1) chars.size
    let string ← slice? chars k.index stop
    return ⟨k.texts ++ piece k.word .plain ++ [⟨.ofList string, .ink Palette.literal⟩], [], stop⟩
  else if isWordCharacter c then
    return ⟨k.texts, k.word ++ [c], k.index + 1⟩
  else
    return ⟨k.texts ++ piece k.word (wordStyle (.ofList k.word) (c = '(')) ++
      [⟨c.toString, delimiterStyle c⟩], [], k.index + 1⟩

/-- The texts of the line, once there are no more characters. -/
def finish (k : Cursor) : List StyledText :=
  k.texts ++ piece k.word (wordStyle (.ofList k.word) false)

/-- The cursor comes to stand so while it goes over a line. -/
inductive Reached (chars : Array Char) : Cursor → Prop
  | start : Reached chars start
  | turn {k l : Cursor} (reached : Reached chars k) (ahead : k.index < chars.size)
      (turned : turn? chars k = some l) : Reached chars l

/-- The cursor stands on the line or at its end, and with the texts of what is ahead it has the
texts of the line. -/
structure OnLine (chars : Array Char) (k : Cursor) : Prop where
  within : k.index ≤ chars.size
  texts : k.texts ++ highlightFrom k.word.reverse (chars.toList.drop k.index) =
    highlightFrom [] chars.toList

end Cursor

variable {chars : Array Char}

theorem drop_eq_cons {index : Nat} (inside : index < chars.size) :
    chars.toList.drop index = chars[index] :: chars.toList.drop (index + 1) :=
  List.drop_eq_getElem_cons (Array.length_toList.symm ▸ inside)

theorem slice?_append {start stop : Nat} (ordered : start ≤ stop) (within : stop ≤ chars.size) :
    ∃ cs, slice? chars start stop = some cs ∧
      cs ++ chars.toList.drop stop = chars.toList.drop start := by
  refine ⟨(chars.extract start stop).toList, by simp [slice?, ordered, within], ?_⟩
  rw [Array.toList_extract, List.extract_eq_take_drop]
  conv => rhs; rw [← List.take_append_drop (stop - start) (chars.toList.drop start)]
  rw [List.drop_drop, Nat.add_sub_cancel' ordered]

/-- The closing quote is looked for within the line, and found where the string is cut off. -/
theorem closing?_cutString (chars : Array Char) (quote : Char) (index : Nat) :
    ∃ closing, closing? chars quote index = some closing ∧ index ≤ closing ∧
      (cutString quote (chars.toList.drop index)).2 =
        chars.toList.drop (min (closing + 1) chars.size) := by
  induction h : chars.size - index using Nat.strongRecOn generalizing index with
  | ind left ih =>
    rw [closing?]
    by_cases inside : index < chars.size
    case neg =>
      refine ⟨index, by simp [inside], Nat.le_refl _, ?_⟩
      rw [List.drop_eq_nil_of_le (by simp; omega), List.drop_eq_nil_of_le (by simp; omega)]
      simp [cutString]
    rw [if_pos inside, Array.getElem?_eq_getElem inside, drop_eq_cons inside]
    by_cases closed : chars[index] = quote
    case pos =>
      refine ⟨index, by simp [closed], Nat.le_refl _, ?_⟩
      rw [cutString.eq_def]
      simp only [if_pos closed, Nat.min_eq_left (Nat.succ_le_of_lt inside)]
    by_cases escaped : chars[index] = '\\'
    · obtain ⟨closing, found, later, rest⟩ := ih _ (by omega) (index + 2) rfl
      refine ⟨closing, ?_, by omega, ?_⟩
      · simp only [bind, Option.bind, if_neg closed, if_pos escaped, found]
      rw [← rest, cutString.eq_def]
      simp only [if_neg closed, if_pos escaped]
      -- an escape at the end of the line goes past it
      rcases last : chars.toList.drop (index + 1) with _ | ⟨d, ds⟩
      · have : chars.toList.drop (index + 2) = [] := by simpa using congrArg List.tail last
        simp [this, cutString]
      · have : chars.toList.drop (index + 2) = ds := by simpa using congrArg List.tail last
        simp [this]
    · obtain ⟨closing, found, later, rest⟩ := ih _ (by omega) (index + 1) rfl
      refine ⟨closing, ?_, by omega, ?_⟩
      · simp only [bind, Option.bind, if_neg closed, if_neg escaped, found]
      rw [← rest, cutString.eq_def]
      simp only [if_neg closed, if_neg escaped]

namespace Cursor

theorem OnLine.start : OnLine chars start := ⟨Nat.zero_le _, by simp [Cursor.start]⟩

/-- Before the end a cursor on the line has another turn, which takes it further along the line. -/
theorem OnLine.turn {k : Cursor} (on : OnLine chars k) (ahead : k.index < chars.size) :
    ∃ l, turn? chars k = some l ∧ k.index < l.index ∧ OnLine chars l := by
  have next := drop_eq_cons ahead
  have texts := on.texts
  rw [next] at texts
  rw [turn?, Array.getElem?_eq_getElem ahead]
  generalize chars[k.index] = c at next texts ⊢
  by_cases comment : c = '#'
  case pos =>
    obtain ⟨cs, cut, whole⟩ := slice?_append (Nat.le_of_lt ahead) (Nat.le_refl chars.size)
    rw [List.drop_eq_nil_of_le (by simp), List.append_nil, next] at whole
    refine ⟨⟨_, [], chars.size⟩, by simp [comment, cut]; rfl, ahead, Nat.le_refl _, ?_⟩
    rw [← texts, List.drop_eq_nil_of_le (by simp), whole]
    simp [highlightFrom, comment, piece]
  by_cases quoted : c = '"' ∨ c = '\''
  case pos =>
    obtain ⟨closing, found, later, rest⟩ := closing?_cutString chars c (k.index + 1)
    have further : k.index < min (closing + 1) chars.size := by omega
    obtain ⟨cs, cut, whole⟩ := slice?_append (Nat.le_of_lt further) (Nat.min_le_right _ chars.size)
    have string : cs = c :: (cutString c (chars.toList.drop (k.index + 1))).1 := by
      refine (List.append_left_inj (chars.toList.drop (min (closing + 1) chars.size))).1 ?_
      rw [whole, next, ← rest, List.cons_append, cutString_append]
    refine ⟨⟨_, [], min (closing + 1) chars.size⟩, by simp [comment, quoted, found, cut]; rfl,
      further, Nat.min_le_right _ _, ?_⟩
    rw [← texts, ← rest, string, highlightFrom.eq_2]
    simp [comment, quoted]
  by_cases word : isWordCharacter c = true
  case pos =>
    refine ⟨⟨_, _, k.index + 1⟩, by simp [comment, quoted, word]; exact ⟨rfl, rfl⟩,
      Nat.lt_succ_self _, ahead, ?_⟩
    rw [← texts, highlightFrom.eq_2]
    simp [comment, quoted, word]
  refine ⟨⟨_, [], k.index + 1⟩, by simp [comment, quoted, word]; rfl, Nat.lt_succ_self _, ahead, ?_⟩
  rw [← texts, highlightFrom.eq_2]
  simp [comment, quoted, word]

theorem OnLine.of_reached {k : Cursor} (reached : Reached chars k) : OnLine chars k := by
  induction reached with
  | start => exact .start
  | turn _ ahead turned on =>
    obtain ⟨_, again, _, further⟩ := on.turn ahead
    obtain rfl := Option.some.inj (again.symm.trans turned)
    exact further

/-- What has been cut off, the word that has begun and what is ahead are the line. -/
theorem OnLine.characters {k : Cursor} (on : OnLine chars k) :
    characters k.texts ++ k.word ++ chars.toList.drop k.index = chars.toList := by
  simpa [characters_highlightFrom] using congrArg Highlight.characters on.texts

theorem OnLine.finish {k : Cursor} (on : OnLine chars k) (done : k.index = chars.size) :
    k.finish = highlightFrom [] chars.toList := by
  rw [← on.texts, done, List.drop_eq_nil_of_le (by simp), highlightFrom, List.reverse_reverse]
  rfl

/-- From any place the cursor comes to the end of the line. -/
theorem Reached.to_end {k : Cursor} (reached : Reached chars k) :
    ∃ l, Reached chars l ∧ l.index = chars.size := by
  induction h : chars.size - k.index using Nat.strongRecOn generalizing k with
  | ind left ih =>
    have on := OnLine.of_reached reached
    rcases Nat.eq_or_lt_of_le on.within with done | ahead
    · exact ⟨k, reached, done⟩
    · obtain ⟨l, turned, further, -⟩ := on.turn ahead
      exact ih _ (by omega) (reached.turn ahead turned) rfl

end Cursor

/-- How a line is highlighted. -/
structure KeepsText (text : String) : Prop where
  /-- The texts are the line, with each character once and in its place. -/
  whole : (line text).flatMap (·.text.toList) = text.toList
  unstyled : StyledText.unstyled (line text) = text
  /-- On its way the cursor does not leave the line, and nothing is lost or repeated. -/
  within : ∀ k, Cursor.Reached text.toList.toArray k → k.index ≤ text.toList.length ∧
    k.texts.flatMap (·.text.toList) ++ k.word ++ text.toList.drop k.index = text.toList
  /-- No index that a turn uses is out of range, and the turn takes the cursor further. -/
  turns : ∀ k, Cursor.Reached text.toList.toArray k → k.index < text.toList.length →
    ∃ l, k.turn? text.toList.toArray = some l ∧ k.index < l.index
  /-- The cursor comes to the end of the line, with the texts of the line. -/
  ends : ∃ k, Cursor.Reached text.toList.toArray k ∧ k.index = text.toList.length ∧
    k.finish = line text

theorem line_keeps_text (text : String) : KeepsText text where
  whole := characters_line text
  unstyled := String.toList_inj.mp <| by rw [toList_unstyled, characters_line]
  within k reached := by
    have on := Cursor.OnLine.of_reached reached
    exact ⟨on.within, on.characters⟩
  turns k reached ahead := by
    obtain ⟨l, turned, further, -⟩ := (Cursor.OnLine.of_reached reached).turn ahead
    exact ⟨l, turned, further⟩
  ends := by
    have begun : Cursor.Reached text.toList.toArray .start := .start
    obtain ⟨k, reached, done⟩ := begun.to_end
    exact ⟨k, reached, done, (Cursor.OnLine.of_reached reached).finish done⟩

end Footprint.Highlight
