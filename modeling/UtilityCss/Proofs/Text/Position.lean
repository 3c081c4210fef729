import UtilityCss.Text.Position

/-!
Positions and offsets tell the same. Between two characters of a text, and at its two ends, the
position moves on with the offset, line by line and in a line by column, and its line and column
lead back to the offset. No other position leads to a place of the text.
-/
namespace UtilityCss

namespace Text

theorem size_cons (c : Char) (text : Text) : size (c :: text) = c.utf8Size + text.size := by
  rw [size, List.foldl_cons, foldl_size, Nat.zero_add]

/-- An offset that does not fall inside a character, nor behind the end. -/
def Boundary (text : Text) (offset : Nat) : Prop :=
  ∃ before : Text, before <+: text ∧ before.size = offset

/-- Of two beginnings of a text, the smaller one is the beginning of the other. -/
theorem exists_append_of_size_lt {text before further : Text} (left : before <+: text)
    (right : further <+: text) (less : before.size < further.size) :
    ∃ c between, further = before ++ c :: between := by
  obtain inside | inside := List.prefix_or_prefix_of_prefix left right
  · obtain ⟨between, rfl⟩ := inside
    cases between with
    | nil => simp at less
    | cons c between => exact ⟨c, between, rfl⟩
  · obtain ⟨between, rfl⟩ := inside
    rw [size_append] at less
    omega

/-- The lines of a text, which newline characters part. -/
def lines (text : Text) : List Text :=
  text.splitOn '\n'

/-- A text that stands below whole lines. -/
def below (above : List Text) (text : Text) : Text :=
  above.flatMap (· ++ ['\n']) ++ text

theorem below_cons (line : Text) (above : List Text) (text : Text) :
    below (line :: above) text = line ++ '\n' :: below above text := by
  simp [below]

/-- Every text is a part of a line, below the lines in front of it. -/
theorem exists_below (text : Text) :
    ∃ above part, text = below above part ∧ (∀ line ∈ above, '\n' ∉ line) ∧ '\n' ∉ part := by
  induction text with
  | nil => exact ⟨[], [], rfl, by simp, by simp⟩
  | cons c text ih =>
      obtain ⟨above, part, rfl, whole, unbroken⟩ := ih
      by_cases newline : c = '\n'
      · subst newline
        exact ⟨[] :: above, part, (below_cons [] above part).symm, by simpa using whole, unbroken⟩
      · cases above with
        | nil => exact ⟨[], c :: part, rfl, by simp, by simp [unbroken, Ne.symm newline]⟩
        | cons line above =>
            refine ⟨(c :: line) :: above, part, ?_, ?_, unbroken⟩
            · rw [below_cons, below_cons]
              rfl
            · rw [List.forall_mem_cons] at whole ⊢
              exact ⟨by simp [whole.1, Ne.symm newline], whole.2⟩

theorem lines_below {above : List Text} (whole : ∀ line ∈ above, '\n' ∉ line) (text : Text) :
    lines (below above text) = above ++ lines text := by
  induction above with
  | nil => rfl
  | cons line above ih =>
      obtain ⟨first, others⟩ := List.forall_mem_cons.mp whole
      rw [below_cons, lines, List.splitOn_append_cons_self_of_not_mem first, ← lines, ih others]
      rfl

theorem lines_unbroken {part : Text} (unbroken : '\n' ∉ part) : lines part = [part] :=
  List.splitOn_eq_singleton unbroken

/-- In front of a text, a part of a line is the begin of its first line. -/
theorem exists_lines_append {part : Text} (unbroken : '\n' ∉ part) (text : Text) :
    ∃ rest more, lines (part ++ text) = (part ++ rest) :: more := by
  induction part with
  | nil => exact List.exists_cons_of_ne_nil (List.splitOn_ne_nil '\n' text)
  | cons c part ih =>
      rw [List.mem_cons, not_or] at unbroken
      obtain ⟨rest, more, split⟩ := ih unbroken.2
      refine ⟨rest, more, ?_⟩
      rw [List.cons_append, lines, List.splitOn_cons_eq_if_modifyHead, ← lines, split]
      simp [Ne.symm unbroken.1]

theorem below_take_begins {above : List Text} {part line : Text} {n : Nat}
    (found : (above ++ [part])[n]? = some line) :
    below ((above ++ [part]).take n) line <+: below above part := by
  induction above generalizing n with
  | nil =>
      obtain ⟨rfl, rfl⟩ : n = 0 ∧ part = line := by simpa [List.getElem?_singleton] using found
      exact List.prefix_refl _
  | cons first above ih =>
      rw [below_cons]
      cases n with
      | zero =>
          obtain rfl : first = line := by simpa using found
          exact List.prefix_append _ _
      | succ n =>
          rw [List.cons_append, List.take_succ_cons, below_cons, List.prefix_append_right_inj,
            List.cons_prefix_cons]
          exact ⟨rfl, ih (by simpa using found)⟩

/-- A text begins with each of its lines, below those above it. -/
theorem below_lines_begins {text line : Text} {n : Nat} (found : (lines text)[n]? = some line) :
    below ((lines text).take n) line <+: text := by
  obtain ⟨above, part, rfl, whole, unbroken⟩ := exists_below text
  rw [lines_below whole, lines_unbroken unbroken] at found ⊢
  exact below_take_begins found

theorem not_mem_of_mem_lines {line text : Text} (h : line ∈ lines text) : '\n' ∉ line := by
  obtain ⟨above, part, rfl, whole, unbroken⟩ := exists_below text
  rw [lines_below whole, lines_unbroken unbroken, List.mem_append, List.mem_singleton] at h
  obtain inside | rfl := h
  · exact whole line inside
  · exact unbroken

end Text

namespace Position
open UtilityCss.Text

theorem advance?_append (p : Position) (before after : Text) :
    p.advance? (before ++ after) before.size = some (p.afterText before) := by
  induction before generalizing p with
  | nil => cases after <;> rfl
  | cons c before ih =>
      have positive := c.utf8Size_pos
      obtain ⟨n, count⟩ := Nat.exists_eq_add_of_lt (Nat.add_pos_left positive (Text.size before))
      rw [Nat.zero_add] at count
      have left : n + 1 - c.utf8Size = Text.size before := by omega
      rw [List.cons_append, size_cons, count, advance?, if_pos (by omega), left, ih]
      rfl

/-- The position of an offset between two characters counts what stands in front of it. -/
theorem ofOffset_append (before after : Text) :
    ofOffset (before ++ after) before.size = start.afterText before := by
  rw [ofOffset, advance?_append, Option.getD_some]

theorem ofOffset_begins {before text : Text} (h : before <+: text) :
    ofOffset text before.size = start.afterText before := by
  obtain ⟨after, rfl⟩ := h
  exact ofOffset_append before after

/-- Positions in the order of reading: line by line, and in a line by column. -/
instance : LT Position where
  lt p q := p.line < q.line ∨ p.line = q.line ∧ p.column < q.column

theorem lt_iff {p q : Position} :
    p < q ↔ p.line < q.line ∨ p.line = q.line ∧ p.column < q.column :=
  Iff.rfl

instance (p q : Position) : Decidable (p < q) :=
  decidable_of_iff' _ lt_iff

theorem lt_trans {p q r : Position} (left : p < q) (right : q < r) : p < r := by
  rw [lt_iff] at *
  omega

theorem lt_after (p : Position) (c : Char) : p < p.after c := by
  rw [lt_iff, after]
  split
  · exact .inl (Nat.lt_succ_self _)
  · exact .inr ⟨rfl, Nat.lt_succ_self _⟩

theorem lt_afterText (p : Position) (c : Char) (text : Text) : p < p.afterText (c :: text) := by
  induction text generalizing p c with
  | nil => exact p.lt_after c
  | cons d text ih => exact lt_trans (p.lt_after c) (ih (p.after c) d)

theorem afterText_append (p : Position) (before after : Text) :
    p.afterText (before ++ after) = (p.afterText before).afterText after :=
  List.foldl_append

/-- A later place of a text has a later position. -/
theorem ofOffset_lt_ofOffset {text : Text} {a b : Nat} (first : text.Boundary a)
    (second : text.Boundary b) (less : a < b) : ofOffset text a < ofOffset text b := by
  obtain ⟨before, left, rfl⟩ := first
  obtain ⟨further, right, rfl⟩ := second
  obtain ⟨c, between, rfl⟩ := exists_append_of_size_lt left right less
  rw [ofOffset_begins left, ofOffset_begins right, afterText_append]
  exact lt_afterText _ c between

theorem afterText_unbroken (p : Position) {part : Text} (unbroken : '\n' ∉ part) :
    p.afterText part = ⟨p.line, p.column + part.length⟩ := by
  induction part generalizing p with
  | nil => rfl
  | cons c part ih =>
      rw [List.mem_cons, not_or] at unbroken
      show (p.after c).afterText part = _
      rw [ih _ unbroken.2, after, if_neg (Ne.symm unbroken.1), List.length_cons]
      simp only [Nat.add_assoc, Nat.add_comm 1]

/-- Behind a part of a line and the lines above it, the line is the first after these and the column
the first after the part. -/
theorem afterText_below {above : List Text} {part : Text} (whole : ∀ line ∈ above, '\n' ∉ line)
    (unbroken : '\n' ∉ part) :
    start.afterText (below above part) = ⟨above.length + 1, part.length + 1⟩ := by
  suffices ∀ n, (⟨n, 1⟩ : Position).afterText (below above part) =
      ⟨n + above.length, part.length + 1⟩ by
    rw [start, this, Nat.add_comm]
  intro n
  induction above generalizing n with
  | nil =>
      show (⟨n, 1⟩ : Position).afterText part = _
      rw [afterText_unbroken _ unbroken, Nat.add_comm 1]
      rfl
  | cons line above ih =>
      obtain ⟨first, others⟩ := List.forall_mem_cons.mp whole
      rw [below_cons, afterText_append, afterText_unbroken _ first]
      show (⟨n + 1, 1⟩ : Position).afterText (below above part) = _
      rw [ih others, List.length_cons]
      congr 1
      omega

/-- What stands in front of the place that a line and column lead to, if the text has that line and
the line that many characters. -/
def before? (p : Position) (text : Text) : Option Text :=
  match p with
  | ⟨line + 1, column + 1⟩ => do
    let current ← (lines text)[line]?
    if column ≤ current.length then
      some (below ((lines text).take line) (current.take column))
    else none
  | _ => none

/-- The offset that a line and column of a text lead to. -/
def offset? (p : Position) (text : Text) : Option Nat :=
  (p.before? text).map Text.size

theorem before?_afterText {before text : Text} (h : before <+: text) :
    (start.afterText before).before? text = some before := by
  obtain ⟨after, rfl⟩ := h
  obtain ⟨above, part, rfl, whole, unbroken⟩ := exists_below before
  obtain ⟨rest, more, split⟩ := exists_lines_append unbroken after
  have all : lines (below above part ++ after) = above ++ (part ++ rest) :: more := by
    rw [← split, ← lines_below whole, below, below, List.append_assoc]
  rw [afterText_below whole unbroken, before?, all]
  simp

theorem eq_of_before? {before text : Text} {p : Position} (h : p.before? text = some before) :
    before <+: text ∧ start.afterText before = p := by
  obtain ⟨_ | line, _ | column⟩ := p
  case succ.succ =>
    obtain ⟨current, found, h⟩ := Option.bind_eq_some_iff.mp h
    split at h
    next within =>
      cases h
      obtain ⟨inside, _⟩ := List.getElem?_eq_some_iff.mp found
      have unbroken : '\n' ∉ current := not_mem_of_mem_lines (List.mem_of_getElem? found)
      have part : current.take column <+: current := List.take_prefix column current
      constructor
      · exact ((List.prefix_append_right_inj _).mpr part).trans (below_lines_begins found)
      · rw [afterText_below _ fun newline => unbroken (part.subset newline),
          List.length_take_of_le within, List.length_take_of_le (Nat.le_of_lt inside)]
        exact fun above taken => not_mem_of_mem_lines (List.mem_of_mem_take taken)
    · cases h
  all_goals cases h

/-- A line and column lead to an offset exactly if it is a place of the text and they are its
position. -/
theorem offset?_eq_some_iff {p : Position} {text : Text} {offset : Nat} :
    p.offset? text = some offset ↔ text.Boundary offset ∧ ofOffset text offset = p := by
  rw [offset?, Option.map_eq_some_iff]
  constructor
  · rintro ⟨before, found, rfl⟩
    obtain ⟨h, rfl⟩ := eq_of_before? found
    exact ⟨⟨before, h, rfl⟩, ofOffset_begins h⟩
  · rintro ⟨⟨before, h, rfl⟩, rfl⟩
    rw [ofOffset_begins h]
    exact ⟨before, before?_afterText h, rfl⟩

/-- Each line ends with a character of two octets, and the first has no third column. -/
example : (⟨2, 3⟩ : Position).offset? "é\nbé".toList = some 6 ∧
    (⟨1, 3⟩ : Position).offset? "é\nbé".toList = none := by decide

end Position
end UtilityCss
