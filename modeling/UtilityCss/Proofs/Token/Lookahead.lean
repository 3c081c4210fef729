import UtilityCss.Proofs.Token.Lexing

/-!
How far reading looks ahead. What is measured in front of white space or of a mark is measured the
same in front of any other mark, as long as it ends there: names stop at all of these, and runs,
strings and comments that are over are over whatever comes after them. The exception is a backslash
in front of a line break, which escapes nothing until another character takes the place of the
break. At the end of a text the same is measured as in front of white space, a mark or a quotation
mark.
-/
namespace UtilityCss.Lexer

/-- The characters that part declarations, selectors and blocks. -/
def marks : List Char :=
  [';', ',', ':', '\x7b', '\x7d']

def partings : List Char :=
  [' ', '\t', '\n', '\r', '\x0c'] ++ marks

theorem mem_partings {c : Char} (h : c ∈ marks) : c ∈ partings :=
  List.mem_append_right _ h

def quotes : List Char :=
  ['\x22', '\x27']

/-- The characters that end every name and number in front of them. -/
def stops : List Char :=
  partings ++ quotes

theorem mem_stops {c : Char} (h : c ∈ partings) : c ∈ stops :=
  List.mem_append_left _ h

theorem mem_stops_of_quote {c : Char} (h : c ∈ quotes) : c ∈ stops :=
  List.mem_append_right _ h

/-- A character that does not escape what follows: a line that ends in a backslash goes on where
another character stands in place of its end. -/
def Apart (v : Text) (p : Char) : Prop :=
  isNewline p = true → ¬['\\'] <:+ v

theorem Apart.of_suffix {v w : Text} {p : Char} (h : Apart v p) (suffix : w <:+ v) : Apart w p :=
  fun newline last => h newline (last.trans suffix)

theorem eq_false_of_mem {P : Char → Bool} {s : Text} (all : s.any P = false) {c : Char}
    (h : c ∈ s) : P c = false := by
  simpa using List.any_eq_false.mp all c h

theorem apart_of_mark {v : Text} {p : Char} (h : p ∈ marks) : Apart v p := by
  have plain : isNewline p = false := eq_false_of_mem (by decide) h
  intro newline
  rw [plain] at newline
  cases newline

section Runs
variable {P : Char → Bool}

theorem runLength_append_of_head {v w : Text} (stops : ∀ c ∈ w.head?, P c = false) :
    runLength P (v ++ w) = runLength P v := by
  induction v with
  | nil =>
      cases w with
      | nil => rfl
      | cons c w => simp [runLength, stops c rfl]
  | cons c v ih =>
      cases held : P c with
      | false => simp [runLength, held]
      | true => simpa [runLength, held] using ih

theorem runLength_le (v : Text) : runLength P v ≤ v.length :=
  (List.takeWhile_sublist P).length_le

/-- A run that is over before the text is cut is over there whatever comes after. -/
theorem runLength_cut_of_lt {v w : Text} (h : runLength P (v ++ w) < v.length) (y : Text) :
    runLength P (v ++ y) = runLength P (v ++ w) := by
  induction v with
  | nil => cases h
  | cons c v ih =>
      cases held : P c with
      | false => simp [runLength, held]
      | true =>
          have := ih (by simpa [runLength, held] using h)
          simpa [runLength, held] using this

theorem runLength_lt_of_le {v x : Text} {p : Char} (held : P p = true)
    (h : runLength P (v ++ p :: x) ≤ v.length) : runLength P (v ++ p :: x) < v.length := by
  induction v with
  | nil => simp [runLength, held] at h
  | cons c v ih =>
      cases first : P c with
      | false => simp [runLength, first]
      | true =>
          have := ih (by simpa [runLength, first] using h)
          simpa [runLength, first] using this

theorem runLength_cut {v x z : Text} {p : Char} (same : ∀ q ∈ z.head?, P q = true → P p = true)
    (within : runLength P (v ++ p :: x) ≤ v.length) :
    runLength P (v ++ z) = runLength P (v ++ p :: x) := by
  cases held : P p with
  | true => exact runLength_cut_of_lt (runLength_lt_of_le held within) _
  | false =>
      have ended : ∀ q ∈ z.head?, P q = false := fun q first =>
        Bool.eq_false_iff.mpr fun h => by simp [same q first h] at held
      rw [runLength_append_of_head ended, runLength_append_of_head (by simpa using held)]

theorem runLength_drop_self (v : Text) : runLength P (v.drop (runLength P v)) = 0 := by
  induction v with
  | nil => rfl
  | cons c v ih =>
      cases held : P c with
      | false => simp [runLength, held]
      | true => simpa [runLength, held] using ih

end Runs

section Stop
variable {p : Char} (stop : p ∈ stops)
include stop

theorem not_nameChar : isNameChar p = false :=
  eq_false_of_mem (by decide) stop

theorem not_nameStart : isNameStart p = false :=
  eq_false_of_mem (by decide) stop

theorem not_digit : p.isDigit = false :=
  eq_false_of_mem (by decide) stop

theorem not_sign : isSign p = false :=
  eq_false_of_mem (by decide) stop

theorem ne_of_stop {c : Char} (h : stops.contains c = false) : p ≠ c := by
  rintro rfl
  simp [stop] at h

end Stop

/-- A text that nothing in front of it goes on into: it is empty or begins with a stop. -/
def Stopped (z : Text) : Prop :=
  ∀ c ∈ z.head?, c ∈ stops

theorem stopped_cons {p : Char} (stop : p ∈ stops) (x : Text) : Stopped (p :: x) :=
  fun _ first => Option.some.inj first ▸ stop

theorem nameLengthFrom_plain {n : Nat} {c : Char} (rest : Text) (plain : c ≠ '\\') :
    nameLengthFrom n (c :: rest) = if isNameChar c then nameLengthFrom (n + 1) rest else n := by
  cases rest <;> simp [nameLengthFrom, plain]

section Stopped
variable {z : Text} (stopped : Stopped z)
include stopped

theorem Stopped.cases : z = [] ∨ ∃ p x, z = p :: x ∧ p ∈ stops := by
  cases z with
  | nil => exact .inl rfl
  | cons p x => exact .inr ⟨p, x, rfl, stopped p rfl⟩

theorem head_append {v : Text} (h : v.head? ≠ some '-') : (v ++ z).head? ≠ some '-' := by
  cases v with
  | nil =>
      obtain rfl | ⟨p, x, rfl, stop⟩ := stopped.cases
      · exact h
      · simpa using ne_of_stop stop rfl
  | cons c v => exact h

theorem prefix_append {start w : List Char} (others : start.all (!stops.contains ·)) :
    start <+: w ++ z ↔ start <+: w := by
  induction start generalizing w with
  | nil => simp
  | cons c start ih =>
      obtain ⟨other, others⟩ : c ∉ stops ∧ start.all (!stops.contains ·) := by
        simpa using others
      cases w with
      | nil =>
          obtain rfl | ⟨p, x, rfl, stop⟩ := stopped.cases
          · rfl
          · have differs : c ≠ p := fun same => other (same ▸ stop)
            simp [List.cons_prefix_cons, differs]
      | cons d w => simp [List.cons_prefix_cons, ih others]

theorem digitsLength_append (v : Text) : digitsLength (v ++ z) = digitsLength v :=
  runLength_append_of_head fun c first => not_digit (stopped c first)

theorem unsignedLength_append (v : Text) : unsignedLength (v ++ z) = unsignedLength v := by
  have whole : digitsLength v ≤ v.length := runLength_le v
  simp only [unsignedLength, digitsLength_append stopped, List.drop_append_of_le_length whole]
  generalize v.drop (digitsLength v) = rest
  match rest with
  | [] =>
      obtain rfl | ⟨p, x, rfl, stop⟩ := stopped.cases
      · rfl
      · simp [ne_of_stop stop (c := '.') rfl]
  | c :: rest =>
      by_cases dot : c = '.'
      · subst dot
        simp [digitsLength_append stopped]
      · simp [dot]

theorem startsName_stopped : startsName z = false := by
  obtain rfl | ⟨p, x, rfl, stop⟩ := stopped.cases
  · rfl
  · have plain := ne_of_stop stop (c := '\\') rfl
    cases x <;> simp [startsName, plain, not_nameStart stop]

theorem nameLengthFrom_stopped (n : Nat) : nameLengthFrom n z = n := by
  obtain rfl | ⟨p, x, rfl, stop⟩ := stopped.cases
  · rfl
  · rw [nameLengthFrom_plain x (ne_of_stop stop rfl), not_nameChar stop]
    rfl

theorem mantissaLength_append (v : Text) : mantissaLength (v ++ z) = mantissaLength v := by
  match v with
  | [] =>
      have none := unsignedLength_append stopped []
      obtain rfl | ⟨p, x, rfl, stop⟩ := stopped.cases
      · rfl
      · rw [List.nil_append] at none
        simp only [List.nil_append, mantissaLength, not_sign stop, none]
        rfl
  | c :: v =>
      have rest := unsignedLength_append stopped v
      have whole := unsignedLength_append stopped (c :: v)
      simp only [List.cons_append] at whole
      simp [mantissaLength, rest, whole]

theorem exponentLength_append (v : Text) : exponentLength (v ++ z) = exponentLength v := by
  match v with
  | [] =>
      obtain rfl | ⟨p, x, rfl, stop⟩ := stopped.cases
      · rfl
      · simp [exponentLength, ne_of_stop stop (c := 'e') rfl, ne_of_stop stop (c := 'E') rfl]
  | [e] =>
      have none : digitsLength z = 0 := digitsLength_append stopped []
      obtain rfl | ⟨p, x, rfl, stop⟩ := stopped.cases
      · rfl
      · simp [exponentLength, not_sign stop, none]
  | e :: c :: v =>
      have rest := digitsLength_append stopped v
      have whole := digitsLength_append stopped (c :: v)
      simp only [List.cons_append] at whole
      simp [exponentLength, rest, whole]

theorem startsPercent_append (v : Text) : startsPercent (v ++ z) = startsPercent v := by
  cases v with
  | nil =>
      obtain rfl | ⟨p, x, rfl, stop⟩ := stopped.cases
      · rfl
      · simp [startsPercent, ne_of_stop stop (c := '%') rfl]
  | cons c v => by_cases percent : c = '%' <;> simp [startsPercent, percent]

theorem breaksExponent_append (v : Text) : breaksExponent (v ++ z) = breaksExponent v := by
  cases v with
  | nil =>
      obtain rfl | ⟨p, x, rfl, stop⟩ := stopped.cases
      · rfl
      · simp [breaksExponent, ne_of_stop stop (c := '+') rfl, ne_of_stop stop (c := '\\') rfl]
  | cons c v => rfl

theorem isLoneExponent_append (unit : Nat) (v : Text) :
    isLoneExponent unit (v ++ z) = isLoneExponent unit v := by
  cases v with
  | nil =>
      obtain rfl | ⟨p, x, rfl, stop⟩ := stopped.cases
      · rfl
      · simp [isLoneExponent, ne_of_stop stop (c := 'e') rfl, ne_of_stop stop (c := 'E') rfl]
  | cons c v => simp [isLoneExponent, breaksExponent_append stopped]

end Stopped

theorem identLength_dash {rest : Text} (h : rest.head? ≠ some '-') :
    identLength ('-' :: rest) = if startsName rest then nameLength rest + 1 else 0 := by
  cases rest with
  | nil => rfl
  | cons c rest =>
      have plain : c ≠ '-' := by simpa using h
      simp [identLength, plain]

theorem identLength_plain {text : Text} (h : text.head? ≠ some '-') :
    identLength text = if startsName text then nameLength text else 0 := by
  cases text with
  | nil => rfl
  | cons c text =>
      have plain : c ≠ '-' := by simpa using h
      simp [identLength, plain]

theorem le_nameLengthFrom (n : Nat) (text : Text) : n ≤ nameLengthFrom n text := by
  fun_induction nameLengthFrom n text <;> omega

theorem le_nameLengthFrom_escape {c : Char} (line : isNewline c = false) (rest : Text) (n : Nat) :
    n + 2 ≤ nameLengthFrom n ('\\' :: c :: rest) := by
  simpa [nameLengthFrom, line] using le_nameLengthFrom (n + 2) rest

theorem le_commentLengthFrom (n : Nat) (text : Text) : n ≤ commentLengthFrom n text := by
  fun_induction commentLengthFrom n text <;> omega

/-- A text that is cut in front of a stop, with what takes the place of the rest: nothing, or any
text that begins with a mark where white space or a mark was. -/
structure Cut (v : Text) (p : Char) (z : Text) : Prop where
  stop : p ∈ stops
  marked : ∀ q ∈ z.head?, q ∈ marks
  parting : z ≠ [] → p ∈ partings
  apart : z ≠ [] → Apart v p

namespace Cut

theorem atMark {v : Text} {p q : Char} (parting : p ∈ partings) (mark : q ∈ marks)
    (apart : Apart v p) (y : Text) : Cut v p (q :: y) :=
  ⟨mem_stops parting, fun _ first => Option.some.inj first ▸ mark, fun _ => parting, fun _ => apart⟩

theorem atEnd {v : Text} {p : Char} (stop : p ∈ stops) : Cut v p [] :=
  ⟨stop, nofun, fun some => absurd rfl some, fun some => absurd rfl some⟩

section
variable {v : Text} {p : Char} {z : Text} (cut : Cut v p z)
include cut

theorem of_suffix {w : Text} (suffix : w <:+ v) : Cut w p z :=
  { cut with apart := fun some => (cut.apart some).of_suffix suffix }

theorem stopped (x : Text) : Stopped (p :: x) :=
  stopped_cons cut.stop x

theorem stopped_rest : Stopped z :=
  fun q first => mem_stops (mem_partings (cut.marked q first))

theorem isSpace_of_head : ∀ q ∈ z.head?, isSpace q = true → isSpace p = true := by
  intro q first space
  simp [eq_false_of_mem (P := isSpace) (by decide) (cut.marked q first)] at space

/-- Where a lone backslash is cut off from a line break, nothing takes the place of the break. -/
theorem escape_nil (ends : v = ['\\']) (line : isNewline p = true) : z = [] :=
  Classical.byContradiction fun some => cut.apart some line (ends ▸ List.suffix_refl _)

end
end Cut

section Cut
variable {p : Char} {z : Text} (x : Text)

theorem nameLengthFrom_cut {v : Text} (cut : Cut v p z) {n : Nat}
    (within : nameLengthFrom n (v ++ p :: x) ≤ n + v.length) :
    nameLengthFrom n (v ++ z) = nameLengthFrom n (v ++ p :: x) := by
  fun_induction nameLengthFrom n v with
  | case1 n c rest newline => simp [nameLengthFrom, newline]
  | case2 n c rest line ih =>
      simp only [List.cons_append, nameLengthFrom, if_neg line, List.length_cons] at within ⊢
      exact ih (cut.of_suffix ⟨['\\', c], rfl⟩) (by omega)
  | case3 n c rest _ named ih =>
      have plain : c ≠ '\\' := by
        rintro rfl
        cases named
      simp only [List.cons_append, nameLengthFrom_plain _ plain, named, if_true,
        List.length_cons] at within ⊢
      exact ih (cut.of_suffix ⟨[c], rfl⟩) (by omega)
  | case4 n c rest single unnamed =>
      by_cases escape : c = '\\'
      · subst escape
        have last : rest = [] := by
          cases rest with
          | nil => rfl
          | cons c rest => exact absurd rfl (single c rest rfl)
        subst last
        cases line : isNewline p with
        | true =>
            obtain rfl := cut.escape_nil rfl line
            simp [nameLengthFrom, line, isNameChar, isNameStart]
        | false =>
            have longer := le_nameLengthFrom_escape line x n
            simp only [List.cons_append, List.nil_append, List.length_cons, List.length_nil]
              at within
            omega
      · simp only [List.cons_append, nameLengthFrom_plain _ escape, unnamed]
        rfl
  | case5 n =>
      rw [List.nil_append, List.nil_append, nameLengthFrom_stopped cut.stopped_rest,
        nameLengthFrom_stopped (cut.stopped x)]

theorem nameLength_cut {v : Text} (cut : Cut v p z)
    (within : nameLength (v ++ p :: x) ≤ v.length) :
    nameLength (v ++ z) = nameLength (v ++ p :: x) :=
  nameLengthFrom_cut x cut (by rwa [Nat.zero_add])

theorem startsName_cut {v : Text} (cut : Cut v p z)
    (within : startsName (v ++ p :: x) = true → nameLength (v ++ p :: x) ≤ v.length) :
    startsName (v ++ z) = startsName (v ++ p :: x) := by
  match v with
  | [] =>
      rw [List.nil_append, List.nil_append, startsName_stopped cut.stopped_rest,
        startsName_stopped (cut.stopped x)]
  | [c] =>
      by_cases escape : c = '\\'
      · subst escape
        cases line : isNewline p with
        | true =>
            obtain rfl := cut.escape_nil rfl line
            simp [startsName, line, isNameStart]
        | false =>
            have longer := le_nameLengthFrom_escape line x 0
            have within := within (by simp [startsName, line])
            simp only [nameLength, List.cons_append, List.nil_append, List.length_singleton]
              at within
            omega
      · simp [startsName, escape]
  | c :: d :: v => by_cases escape : c = '\\' <;> simp [startsName, escape]

theorem identLength_cut {v : Text} (cut : Cut v p z)
    (within : identLength (v ++ p :: x) ≤ v.length) :
    identLength (v ++ z) = identLength (v ++ p :: x) := by
  have named {w : Text} (suffix : w <:+ v) (more : Nat)
      (within : startsName (w ++ p :: x) = true → nameLength (w ++ p :: x) ≤ w.length) :
      (if startsName (w ++ z) then nameLength (w ++ z) + more else 0) =
        if startsName (w ++ p :: x) then nameLength (w ++ p :: x) + more else 0 := by
    have cut := cut.of_suffix suffix
    rw [startsName_cut x cut within]
    split
    next starts => rw [nameLength_cut x cut (within starts)]
    next => rfl
  by_cases first : v.head? = some '-'
  · obtain ⟨w, rfl⟩ := List.head?_eq_some_iff.mp first
    by_cases second : w.head? = some '-'
    · obtain ⟨w, rfl⟩ := List.head?_eq_some_iff.mp second
      simp only [List.cons_append, identLength, List.length_cons] at within ⊢
      have cut := cut.of_suffix (w := w) ⟨['-', '-'], rfl⟩
      rw [nameLength_cut x cut (by omega)]
    · simp only [List.cons_append, identLength_dash (head_append (cut.stopped x) second),
        identLength_dash (head_append cut.stopped_rest second), List.length_cons] at within ⊢
      refine named ⟨['-'], rfl⟩ 1 fun starts => ?_
      rw [if_pos starts] at within
      omega
  · simp only [identLength_plain (head_append (cut.stopped x) first),
      identLength_plain (head_append cut.stopped_rest first)] at within ⊢
    refine named (List.suffix_refl _) 0 fun starts => ?_
    rwa [if_pos starts] at within

end Cut

theorem lt_stringLengthFrom {closing : Char} {n m : Nat} {text : Text}
    (h : stringLengthFrom closing n text = some m) : n < m := by
  fun_induction stringLengthFrom closing n text <;> grind

theorem stringLengthFrom_plain {closing c : Char} (plain : c ≠ '\\') (n : Nat) (rest : Text) :
    stringLengthFrom closing n (c :: rest) =
      if c = closing then some (n + 1) else
      if isNewline c then none else stringLengthFrom closing (n + 1) rest := by
  cases rest <;> simp [stringLengthFrom, plain]

theorem stringLengthFrom_escaped {closing c : Char} (h : c ≠ '\r') (n : Nat) (rest : Text) :
    stringLengthFrom closing n ('\\' :: c :: rest) = stringLengthFrom closing (n + 2) rest := by
  cases rest <;> simp [stringLengthFrom, h]

/-- A return is escaped together with the newline after it or not at all. -/
theorem newline_of_return {closing : Char} {n m : Nat} {text : Text}
    (h : stringLengthFrom closing n ('\\' :: '\r' :: text) = some m) :
    ∃ rest, text = '\n' :: rest := by
  match text with
  | [] => cases h
  | c :: rest =>
      by_cases line : c = '\n'
      · exact ⟨rest, congrArg (· :: rest) line⟩
      · simp [stringLengthFrom, line] at h

theorem lt_stringLengthFrom_escape {closing : Char} (quote : closing ≠ '\\') {n m : Nat}
    {text : Text} (h : stringLengthFrom closing n ('\\' :: text) = some m) : n + 2 < m := by
  match text with
  | [] => simp [stringLengthFrom, quote.symm] at h
  | c :: text =>
      by_cases ret : c = '\r'
      · subst ret
        obtain ⟨rest, rfl⟩ := newline_of_return h
        have longer := @lt_stringLengthFrom closing (n + 3) m rest h
        omega
      · rw [stringLengthFrom_escaped ret] at h
        exact lt_stringLengthFrom h

/-- A string that is closed within a text is closed there whatever comes after. -/
theorem stringLengthFrom_append {closing : Char} (quote : closing ≠ '\\') {n m : Nat} {v w : Text}
    (within : m ≤ n + v.length) (h : stringLengthFrom closing n (v ++ w) = some m) (y : Text) :
    stringLengthFrom closing n (v ++ y) = some m := by
  fun_induction stringLengthFrom closing n v with
  | case1 n =>
      have longer := lt_stringLengthFrom h
      simp at within
      omega
  | case2 n rest ih =>
      simp only [List.cons_append, stringLengthFrom, List.length_cons] at within h ⊢
      exact ih (by omega) h
  | case3 n rest single =>
      obtain ⟨more, newline⟩ := newline_of_return h
      cases rest with
      | nil =>
          have newline : w = '\n' :: more := newline
          subst newline
          have longer := @lt_stringLengthFrom closing (n + 3) m more h
          simp at within
          omega
      | cons c rest => exact absurd (List.cons.inj newline).1 fun line => single rest (by rw [line])
  | case4 n c rest _ other ih =>
      simp only [List.cons_append, stringLengthFrom_escaped other, List.length_cons] at within h ⊢
      exact ih (by omega) h
  | case5 n rest =>
      simp only [List.cons_append, stringLengthFrom_plain quote, if_true] at h ⊢
      exact h
  | case6 n c rest _ _ last other ends =>
      by_cases escape : c = '\\'
      · subst escape
        have longer := lt_stringLengthFrom_escape quote h
        have last : rest = [] := by
          cases rest with
          | nil => rfl
          | cons c rest => exact absurd rfl (last c rest rfl)
        subst last
        simp at within
        omega
      · have newline : isNewline c = true := by simpa [escape] using ends
        simp [stringLengthFrom_plain escape, other, newline] at h
  | case7 n c rest _ _ _ other going ih =>
      obtain ⟨plain, line⟩ : c ≠ '\\' ∧ isNewline c = false := by simpa using going
      simp only [List.cons_append, stringLengthFrom_plain plain, if_neg other, line,
        List.length_cons] at within h ⊢
      exact ih (by omega) h

theorem lt_commentLengthFrom (n : Nat) (c : Char) (rest : Text) :
    n < commentLengthFrom n (c :: rest) := by
  have longer := le_commentLengthFrom (n + 1) rest
  unfold commentLengthFrom
  split
  · omega
  · next eq =>
      cases eq
      omega
  · next eq => cases eq

/-- A comment that is closed within a text is closed there whatever comes after. -/
theorem commentLengthFrom_append {n : Nat} {v : Text} {d : Char} {w : Text}
    (within : commentLengthFrom n (v ++ d :: w) ≤ n + v.length) (y : Text) :
    commentLengthFrom n (v ++ y) = commentLengthFrom n (v ++ d :: w) := by
  fun_induction commentLengthFrom n v with
  | case1 n rest => rfl
  | case2 n c rest going ih =>
      cases rest with
      | nil =>
          exfalso
          have longer := lt_commentLengthFrom (n + 1) d w
          have both : n + 2 ≤ commentLengthFrom n (c :: d :: w) := by
            unfold commentLengthFrom
            split
            · omega
            · next eq =>
                cases eq
                omega
            · next eq => cases eq
          simp only [List.cons_append, List.nil_append, List.length_cons, List.length_nil] at within
          omega
      | cons e rest =>
          have on (w : Text) : commentLengthFrom n (c :: e :: rest ++ w) =
              commentLengthFrom (n + 1) (e :: rest ++ w) := by
            rw [List.cons_append, commentLengthFrom.eq_2]
            intro tail star slash
            exact going rest star (congrArg (· :: rest) (List.cons.inj slash).1)
          rw [on] at within
          rw [on, on]
          exact ih (by simp only [List.length_cons] at within ⊢; omega)
  | case3 n =>
      have longer := lt_commentLengthFrom n d w
      simp at within
      omega

end UtilityCss.Lexer
