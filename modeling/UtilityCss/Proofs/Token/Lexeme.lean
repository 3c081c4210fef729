import UtilityCss.Proofs.Token.Lookahead

/-!
Lexemes that end where a text is cut. Each is the same lexeme in front of whatever takes the place
of the rest.
-/
namespace UtilityCss.Lexer

theorem exponentLength_le (v : Text) : exponentLength v ≤ v.length := by
  have digits (v : Text) : digitsLength v ≤ v.length := runLength_le v
  match v with
  | [] => exact Nat.le_refl 0
  | [e] => simp [exponentLength]
  | e :: c :: v =>
      have rest := digits v
      have whole := digits (c :: v)
      simp only [List.length_cons] at whole
      simp only [exponentLength, List.length_cons]
      repeat' split
      all_goals omega

section Cut
variable {v : Text} {p : Char} {z : Text} (cut : Cut v p z) (x : Text)
include cut

theorem numeric_cut {mantissa : Nat} (room : mantissa ≤ v.length)
    (within : (numeric mantissa (v ++ p :: x)).more < v.length) :
    numeric mantissa (v ++ z) = numeric mantissa (v ++ p :: x) := by
  have stopped := cut.stopped x
  have stopped' := cut.stopped_rest
  obtain ⟨w, hw⟩ : ∃ w, v.drop mantissa = w := ⟨_, rfl⟩
  have cut : Cut w p z := cut.of_suffix (hw ▸ List.drop_suffix mantissa v)
  have size : w.length + mantissa = v.length := by
    rw [← hw, List.length_drop]
    omega
  have room' := exponentLength_le w
  have after : Cut (w.drop (exponentLength w)) p z := cut.of_suffix (List.drop_suffix _ w)
  have unit := identLength_cut x cut
  have unit' := identLength_cut x after
  simp only [numeric, List.drop_append_of_le_length room, hw, exponentLength_append stopped,
    exponentLength_append stopped', startsPercent_append stopped, startsPercent_append stopped',
    isLoneExponent_append stopped, isLoneExponent_append stopped',
    List.drop_append_of_le_length room', List.length_drop] at within unit' ⊢
  by_cases none : exponentLength w = 0
  · simp only [none, if_true] at within ⊢
    cases percent : startsPercent w with
    | true => rfl
    | false =>
        have inside : identLength (w ++ p :: x) ≤ w.length := by
          simp only [percent, Bool.false_eq_true, if_false] at within
          repeat' split at within
          all_goals
            simp only [Lexeme.more] at within
            omega
        simp only [unit inside]
  · simp only [none, if_false] at within ⊢
    cases percent : startsPercent (w.drop (exponentLength w)) with
    | true => rfl
    | false =>
        have inside : identLength (w ++ p :: x) ≤ w.length ∧
            identLength (w.drop (exponentLength w) ++ p :: x) ≤ w.length - exponentLength w := by
          simp only [percent, Bool.false_eq_true, if_false] at within
          split at within
          next short =>
            simp only [Bool.and_eq_true, decide_eq_true_eq] at short
            omega
          next =>
            simp only [Lexeme.more] at within
            omega
        simp only [unit inside.1, unit' inside.2]

theorem address_cut (within : (address (v ++ p :: x)).more ≤ 3 + v.length) :
    address (v ++ z) = address (v ++ p :: x) := by
  obtain ⟨b, hb⟩ : ∃ b, runLength isSpace (v ++ p :: x) = b := ⟨_, rfl⟩
  obtain ⟨h, hh⟩ : ∃ h, runLength isAddressChar ((v ++ p :: x).drop b) = h := ⟨_, rfl⟩
  obtain ⟨a, ha⟩ : ∃ a, runLength isSpace ((v ++ p :: x).drop (b + h)) = a := ⟨_, rfl⟩
  have total : b + h + a ≤ v.length := by
    have afterBlanks : h = 0 → a = 0 := by
      rintro rfl
      rw [← ha, Nat.add_zero, ← hb]
      exact runLength_drop_self _
    simp only [address, hb, hh, ha] at within
    repeat' split at within
    all_goals
      simp only [Lexeme.more] at within
      omega
  have dropped (n : Nat) (small : n ≤ v.length) (w : Text) : (v ++ w).drop n = v.drop n ++ w :=
    List.drop_append_of_le_length small
  rw [dropped b (by omega)] at hh
  rw [dropped (b + h) (by omega)] at ha
  have inside : runLength isAddressChar (v.drop b ++ p :: x) ≤ (v.drop b).length := by
    rw [hh, List.length_drop]
    omega
  have hb' : runLength isSpace (v ++ z) = b := by
    rw [runLength_cut cut.isSpace_of_head (by rw [hb]; omega), hb]
  have ha' : runLength isSpace (v.drop (b + h) ++ z) = a := by
    rw [runLength_cut cut.isSpace_of_head (by rw [ha, List.length_drop]; omega), ha]
  have hh' : runLength isAddressChar (v.drop b ++ z) = h := by
    by_cases none : z = []
    · rw [runLength_cut (by simp [none]) inside, hh]
    -- A mark could go on with the address, but white space or a mark has ended it before the cut.
    · have held : isSpace p = false → isAddressChar p = true := by
        simpa using eq_false_of_mem (P := fun c => !isSpace c && !isAddressChar c) (by decide)
          (cut.parting none)
      have short : b + h < v.length := by
        cases space : isSpace p with
        | false =>
            have inside := runLength_lt_of_le (held space) inside
            rw [hh, List.length_drop] at inside
            omega
        | true =>
            have inside := runLength_lt_of_le space (v := v.drop (b + h)) (x := x)
            rw [ha, List.length_drop] at inside
            omega
      rw [runLength_cut_of_lt (by rw [hh, List.length_drop]; omega), hh]
  simp only [address, hb, hb', dropped b (by omega), hh, hh', dropped (b + h) (by omega), ha, ha',
    dropped (b + h + a) total]
  have open_ : p ≠ ')' := ne_of_stop cut.stop rfl
  generalize v.drop (b + h + a) = rest
  cases rest with
  | nil =>
      obtain rfl | ⟨q, y, rfl, stop⟩ := cut.stopped_rest.cases
      · simp [open_]
      · simp [open_, ne_of_stop stop (c := ')') rfl]
  | cons c rest => by_cases closes : c = ')' <;> simp [closes]

theorem word_cut {ident : Nat} (room : ident ≤ v.length)
    (within : (word ident (v ++ p :: x)).more < v.length) :
    word ident (v ++ z) = word ident (v ++ p :: x) := by
  have dropped (w : Text) : (v ++ w).drop ident = v.drop ident ++ w :=
    List.drop_append_of_le_length room
  have taken (w : Text) : (v ++ w).take ident = v.take ident :=
    List.take_append_of_le_length room
  have size := List.length_drop (i := ident) (l := v)
  have suffix := List.drop_suffix ident v
  simp only [word, dropped, taken] at within ⊢
  have open_ : p ≠ '(' := ne_of_stop cut.stop rfl
  generalize v.drop ident = rest at within size suffix ⊢
  cases rest with
  | nil =>
      obtain rfl | ⟨q, y, rfl, stop⟩ := cut.stopped_rest.cases
      · simp [open_]
      · simp [open_, ne_of_stop stop (c := '(') rfl]
  | cons c rest =>
      by_cases opens : c = '('
      · subst opens
        have cut := cut.of_suffix ((List.suffix_cons _ rest).trans suffix)
        simp only [List.cons_append] at within ⊢
        split at within
        next url =>
          have three : ident = 3 := by
            have letters := congrArg List.length (beq_iff_eq.mp url)
            simp only [List.length_map, List.length_take] at letters
            simp at letters
            omega
          rw [if_pos url, if_pos url]
          simp only [List.length_cons] at size
          exact address_cut cut x (by omega)
        next other => rw [if_neg other, if_neg other]
      · simp [opens]

end Cut

/-- The lexeme of a character that is neither white space nor a mark nor the begin of a comment, a
markup escape or a name with a sigil. -/
def otherLexeme (c : Char) (rest : Text) : Lexeme :=
  if c = '\x22' || c = '\x27' then
    match stringLengthFrom c 0 rest with
    | some n => .token .string n
    | none => .unclosed
  else if mantissaLength (c :: rest) ≠ 0 then numeric (mantissaLength (c :: rest)) (c :: rest)
  else if identLength (c :: rest) ≠ 0 then word (identLength (c :: rest)) (c :: rest)
  else .delims 0

def punctuation : List Char :=
  [':', ';', ',', '[', ']', '(', ')', '\x7b', '\x7d']

theorem lexeme_punctuation {c : Char} (h : c ∈ punctuation) (rest rest' : Text) :
    lexeme c rest = lexeme c rest' := by
  simp only [punctuation, List.mem_cons, List.not_mem_nil, or_false] at h
  rcases h with rfl | rfl | rfl | rfl | rfl | rfl | rfl | rfl | rfl <;> rfl

theorem lexeme_other {c : Char} {rest : Text} (space : isSpace c = false) (plain : c ∉ punctuation)
    (sigil : c ≠ '@' ∧ c ≠ '#') (comment : ¬['/', '*'] <+: c :: rest)
    (cdo : ¬['<', '!', '-', '-'] <+: c :: rest) (cdc : ¬['-', '-', '>'] <+: c :: rest) :
    lexeme c rest = otherLexeme c rest := by
  simp only [lexeme, space, Bool.false_eq_true, if_false]
  split
  case h_1 => exact absurd ⟨_, rfl⟩ comment
  case h_2 => exact absurd ⟨_, rfl⟩ cdo
  case h_3 => exact absurd ⟨_, rfl⟩ cdc
  case h_13 => exact absurd rfl sigil.1
  case h_14 => exact absurd rfl sigil.2
  case h_15 => rfl
  all_goals exact absurd (by decide) plain

theorem unsignedLength_le (v : Text) : unsignedLength v ≤ v.length := by
  have whole : digitsLength v ≤ v.length := runLength_le v
  have rest := List.length_drop (i := digitsLength v) (l := v)
  simp only [unsignedLength]
  split
  next fraction found =>
    have digits : digitsLength fraction ≤ fraction.length := runLength_le fraction
    rw [found, List.length_cons] at rest
    split <;> omega
  next => exact whole

theorem mantissaLength_le (v : Text) : mantissaLength v ≤ v.length := by
  cases v with
  | nil => exact Nat.le_refl 0
  | cons c v =>
      have rest := unsignedLength_le v
      have whole := unsignedLength_le (c :: v)
      simp only [List.length_cons] at whole
      simp only [mantissaLength, List.length_cons]
      repeat' split
      all_goals omega

theorem le_word {ident : Nat} {text : Text} : ident ≤ (word ident text).more + 1 := by
  simp only [word]
  split
  next rest found =>
    split
    next url =>
      have letters := congrArg List.length (beq_iff_eq.mp url)
      have nonempty := congrArg List.length found
      simp only [List.length_map, List.length_take, List.length_drop, List.length_cons,
        List.length_nil] at letters nonempty
      have far : 3 ≤ (address rest).more := by
        simp only [address]
        repeat' split
        all_goals
          simp only [Lexeme.more]
          omega
      omega
    next => exact Nat.le_succ _
  next =>
    simp only [Lexeme.more]
    omega

section Cut
variable {c : Char} {v : Text} {p : Char} {z : Text} (cut : Cut (c :: v) p z) (x : Text)
include cut

theorem otherLexeme_cut (closed : otherLexeme c (v ++ p :: x) ≠ .unclosed)
    (within : (otherLexeme c (v ++ p :: x)).more ≤ v.length) :
    otherLexeme c (v ++ z) = otherLexeme c (v ++ p :: x) := by
  have mantissa {w : Text} (stopped : Stopped w) :
      mantissaLength (c :: (v ++ w)) = mantissaLength (c :: v) :=
    mantissaLength_append stopped (c :: v)
  have ident := identLength_cut x cut
  have numeric := @numeric_cut (c :: v) p z cut x _ (mantissaLength_le (c :: v))
  simp only [List.cons_append] at ident numeric
  simp only [otherLexeme, mantissa (cut.stopped x), mantissa cut.stopped_rest] at closed within ⊢
  split
  next quote =>
    have plain : c ≠ '\\' := by
      rintro rfl
      simp at quote
    simp only [if_pos quote] at closed within
    cases found : stringLengthFrom c 0 (v ++ p :: x) with
    | none => simp [found] at closed
    | some n =>
        simp only [found, Lexeme.more] at within
        rw [stringLengthFrom_append plain (by omega) found z]
  next other =>
    simp only [if_neg other] at within
    split
    next signed =>
      simp only [if_pos signed] at within
      exact numeric (by simpa using Nat.lt_succ_of_le within)
    next unsigned =>
      simp only [if_neg unsigned] at within
      have inside : identLength (c :: (v ++ p :: x)) ≤ (c :: v).length := by
        split at within
        next =>
          have := @le_word (identLength (c :: (v ++ p :: x))) (c :: (v ++ p :: x))
          simp only [List.length_cons]
          omega
        next none =>
          have none : identLength (c :: (v ++ p :: x)) = 0 := by simpa using none
          omega
      rw [ident inside]
      split
      next named =>
        simp only [if_pos named] at within
        have cut := word_cut cut x inside
        simp only [List.cons_append, List.length_cons] at cut
        exact cut (by omega)
      next => rfl

/-- A lexeme that is over where the text is cut is the same lexeme in front of any mark, and also at
the end of the text. -/
theorem lexeme_cut (closed : lexeme c (v ++ p :: x) ≠ .unclosed)
    (within : (lexeme c (v ++ p :: x)).more ≤ v.length) :
    lexeme c (v ++ z) = lexeme c (v ++ p :: x) := by
  have after : Cut v p z := cut.of_suffix (List.suffix_cons c v)
  cases space : isSpace c with
  | true =>
      simp only [lexeme, space, if_true, Lexeme.more] at within ⊢
      rw [runLength_cut cut.isSpace_of_head within]
  | false =>
      by_cases single : c ∈ punctuation
      · exact lexeme_punctuation single _ _
      by_cases atSign : c = '@'
      · subst atSign
        have unfolded (rest : Text) : lexeme '@' rest =
            if identLength rest = 0 then .delims 0 else .token .atKeyword (identLength rest) := rfl
        rw [unfolded] at within
        have inside : identLength (v ++ p :: x) ≤ v.length := by
          split at within
          · omega
          · exact within
        rw [unfolded, unfolded, identLength_cut x after inside]
      by_cases hash : c = '#'
      · subst hash
        have unfolded (rest : Text) : lexeme '#' rest =
            if nameLength rest = 0 then .delims 0 else .token .hash (nameLength rest) := rfl
        rw [unfolded] at within
        have inside : nameLength (v ++ p :: x) ≤ v.length := by
          split at within
          · omega
          · exact within
        rw [unfolded, unfolded, nameLength_cut x after inside]
      by_cases first : ['/', '*'] <+: c :: v
      · obtain ⟨w, same⟩ := first
        obtain ⟨rfl, rfl⟩ := List.cons.inj same
        have within : commentLengthFrom 1 (w ++ p :: x) ≤ w.length + 1 := within
        rw [Nat.add_comm] at within
        have same := commentLengthFrom_append within z
        exact congrArg (Lexeme.token .comment) same
      by_cases second : ['<', '!', '-', '-'] <+: c :: v
      · obtain ⟨w, same⟩ := second
        obtain ⟨rfl, rfl⟩ := List.cons.inj same
        rfl
      by_cases third : ['-', '-', '>'] <+: c :: v
      · obtain ⟨w, same⟩ := third
        obtain ⟨rfl, rfl⟩ := List.cons.inj same
        rfl
      have other {w : Text} (stopped : Stopped w) : lexeme c (v ++ w) = otherLexeme c (v ++ w) := by
        have opens (start : List Char) (others : start.all (!stops.contains ·)) :
            start <+: c :: (v ++ w) ↔ start <+: c :: v :=
          prefix_append (w := c :: v) stopped others
        refine lexeme_other space single ⟨atSign, hash⟩ ?_ ?_ ?_ <;> rwa [opens _ (by decide)]
      rw [other (cut.stopped x)] at closed within ⊢
      rw [other cut.stopped_rest]
      exact otherLexeme_cut cut x closed within

end Cut

end UtilityCss.Lexer
