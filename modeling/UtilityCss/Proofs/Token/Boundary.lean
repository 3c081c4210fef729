import UtilityCss.Proofs.Token.Lexeme

/-!
Where a text may be cut. Tokens in front of white space or of a mark look no further than that
character, so they are the same tokens in front of any other mark, whatever comes after it. A text
that ends with a mark can be put in front of any other without a token changing.
-/
namespace UtilityCss

theorem Token.source_cons (token : Token) (rest : List Token) :
    source (token :: rest) = token.text ++ source rest :=
  List.flatMap_cons

theorem Token.source_append (xs ys : List Token) : source (xs ++ ys) = source xs ++ source ys :=
  List.flatMap_append

namespace Lexer

/-- Tokens and what follows them are not parts of one lexeme, which only delimiters can be. -/
def Separate (ts us : List Token) : Prop :=
  ∀ last ∈ ts.getLast?, ∀ first ∈ us.head?, last.kind = .delim → first.kind ≠ .delim

theorem Separate.of_suffix {ts ts' us : List Token} (h : Separate (ts ++ ts') us) :
    Separate ts' us := by
  intro last found
  refine h last ?_
  obtain ⟨ts', rfl⟩ := List.getLast?_eq_some_iff.mp found
  rw [← List.append_assoc, List.getLast?_concat]
  rfl

theorem separate_of_last {ts us : List Token}
    (h : ∀ last ∈ ts.getLast?, last.kind ≠ .delim) : Separate ts us :=
  fun last found _ _ delim => absurd delim (h last found)

theorem separate_of_first {ts us : List Token}
    (h : ∀ first ∈ us.head?, first.kind ≠ .delim) : Separate ts us :=
  fun _ _ first found _ => h first found

/-- Tokens that cover the begin of a text take in its lexemes one by one. -/
theorem Lexeme.tokens_cases {l : Lexeme} {c : Char} {rest : Text} {tail ts us : List Token}
    (h : l.tokens c rest ++ tail = ts ++ us) (several : ts ≠ []) (separate : Separate ts us) :
    ∃ ts', ts = l.tokens c rest ++ ts' ∧ tail = ts' ++ us := by
  obtain ⟨ts', rfl, rfl⟩ | ⟨us', taken, rfl⟩ := List.append_eq_append_iff.mp h
  · exact ⟨ts', rfl, rfl⟩
  cases us' with
  | nil => exact ⟨[], by simpa using taken.symm, rfl⟩
  | cons first us' =>
      exfalso
      obtain ⟨last, found⟩ :=
        Option.ne_none_iff_exists'.mp (mt List.getLast?_eq_none_iff.mp several)
      obtain ⟨front, rfl⟩ := List.getLast?_eq_some_iff.mp found
      cases l with
      | token kind more =>
          have size := congrArg List.length taken
          simp [tokens] at size
          omega
      | delims more =>
          have delims (token : Token) (inside : token ∈ front ++ [last] ++ first :: us') :
              token.kind = .delim := by
            rw [← taken, tokens] at inside
            obtain ⟨d, _, rfl⟩ := List.mem_map.mp inside
            rfl
          exact separate last found first rfl (delims last (by simp)) (delims first (by simp))
      | unclosed => simp [tokens] at taken

theorem Lexeme.tokens_congr {l : Lexeme} {c : Char} {rest rest' : Text}
    (h : rest.take l.more = rest'.take l.more) : l.tokens c rest = l.tokens c rest' := by
  cases l with
  | token kind more | delims more =>
      simp only [tokens]
      rw [show rest.take more = rest'.take more from h]
  | unclosed => rfl

/-- What is left of a text after its first lexeme, where tokens that begin with it cover a part. -/
theorem drop_of_covers {c : Char} {rest a b : Text} {ts : List Token}
    (closed : lexeme c rest ≠ .unclosed) (text : a ++ b = c :: rest)
    (covers : Token.source ((lexeme c rest).tokens c rest ++ ts) = a) :
    rest.drop (lexeme c rest).more = Token.source ts ++ b := by
  have taken := Lexeme.source_tokens c rest closed
  rw [Token.source_append, taken] at covers
  subst covers
  have whole : rest.take (lexeme c rest).more ++ (Token.source ts ++ b) = rest := by
    simpa using text
  have cut := List.take_append_drop (lexeme c rest).more rest
  exact List.append_cancel_left (cut.trans whole.symm)

theorem Lexes.after {a b : Text} {ts us : List Token} (lexed : Lexes (a ++ b) (ts ++ us))
    (covers : Token.source ts = a) (separate : Separate ts us) :
    Lexes b us := by
  generalize text : a ++ b = whole at lexed
  generalize cut : ts ++ us = all at lexed
  induction lexed generalizing a ts with
  | nil =>
      obtain ⟨rfl, rfl⟩ := List.append_eq_nil_iff.mp text
      obtain ⟨rfl, rfl⟩ := List.append_eq_nil_iff.mp cut
      exact .nil
  | @cons c rest tail closed inner ih =>
      by_cases several : ts = []
      · subst several covers
        have text : b = c :: rest := text
        have cut : us = (lexeme c rest).tokens c rest ++ tail := cut
        rw [text, cut]
        exact .cons closed inner
      · obtain ⟨ts', rfl, rfl⟩ := Lexeme.tokens_cases cut.symm several separate
        exact ih rfl separate.of_suffix (drop_of_covers closed text covers).symm rfl

/-- Tokens in front of white space or a mark are the same in front of any other mark. -/
theorem Lexes.cut {p q : Char} (parting : p ∈ partings) (mark : q ∈ marks) {a x y : Text}
    {ts us vs : List Token} (apart : Apart a p) (lexed : Lexes (a ++ p :: x) (ts ++ us))
    (covers : Token.source ts = a) (separate : Separate ts us)
    (more : Lexes (q :: y) vs) : Lexes (a ++ q :: y) (ts ++ vs) := by
  generalize text : a ++ p :: x = whole at lexed
  generalize cut : ts ++ us = all at lexed
  induction lexed generalizing a ts with
  | nil => simp at text
  | @cons c rest tail closed inner ih =>
      by_cases several : ts = []
      · subst several covers
        exact more
      · obtain ⟨ts', rfl, rfl⟩ := Lexeme.tokens_cases cut.symm several separate
        have left := drop_of_covers closed text covers
        -- The first lexeme is over within `a`, so it stays, and the rest is left to the induction.
        obtain ⟨v, rfl⟩ : ∃ v, a = c :: v := by
          rw [← covers, Token.source_append, Lexeme.source_tokens c rest closed]
          exact ⟨_, rfl⟩
        obtain rfl : v ++ p :: x = rest := (List.cons.inj text).2
        have inside : (lexeme c (v ++ p :: x)).more ≤ v.length := by
          have size := congrArg List.length left
          simp only [List.length_drop, List.length_append, List.length_cons] at size
          omega
        have dropped (w : Text) : (v ++ w).drop (lexeme c (v ++ p :: x)).more = _ :=
          List.drop_append_of_le_length inside
        have covered : v.drop (lexeme c (v ++ p :: x)).more = Token.source ts' :=
          List.append_cancel_right ((dropped (p :: x)).symm.trans left)
        have suffix : Token.source ts' <:+ c :: v :=
          covered ▸ (List.drop_suffix _ v).trans (List.suffix_cons c v)
        have next := ih (apart.of_suffix suffix) rfl separate.of_suffix left.symm rfl
        have same := lexeme_cut (.atMark parting mark apart y) x closed inside
        have taken (w : Text) : (v ++ w).take (lexeme c (v ++ p :: x)).more = _ :=
          List.take_append_of_le_length inside
        rw [← covered, ← dropped, ← same] at next
        have lexed := Lexes.cons (same ▸ closed) next
        rw [same, Lexeme.tokens_congr ((taken (q :: y)).trans (taken (p :: x)).symm)] at lexed
        rw [List.append_assoc]
        exact lexed

theorem lexeme_of_mark {kind : Kind} {p : Char} (marked : kind.mark? = some p) (x : Text) :
    lexeme p x = .token kind 0 := by
  cases kind <;> cases marked <;> rfl

theorem lexes_mark_iff {kind : Kind} {p : Char} (marked : kind.mark? = some p) {x : Text}
    {us : List Token} : Lexes (p :: x) (⟨kind, [p]⟩ :: us) ↔ Lexes x us := by
  have lexeme := lexeme_of_mark marked x
  constructor
  · intro lexed
    have other : kind ≠ .delim := by
      rintro rfl
      cases marked
    have separate : Separate [⟨kind, [p]⟩] us := separate_of_last (by simpa using other)
    exact @Lexes.after [p] x [⟨kind, [p]⟩] us lexed rfl separate
  · intro lexed
    have closed : Lexer.lexeme p x ≠ .unclosed := by simp [lexeme]
    have first := Lexes.cons closed (by rwa [lexeme])
    rwa [lexeme] at first

/-- Tokens the last of which is a mark, if there is any. -/
def Ended (ts : List Token) : Prop :=
  ∀ last ∈ ts.getLast?, ∃ p ∈ marks, last.kind.mark? = some p ∧ last.text = [p]

theorem Ended.append {xs ys : List Token} (hx : Ended xs) (hy : Ended ys) :
    Ended (xs ++ ys) := by
  intro last found
  rw [List.getLast?_append] at found
  cases ending : ys.getLast? with
  | none =>
      rw [ending] at found
      exact hx last found
  | some token =>
      rw [ending] at found
      cases found
      exact hy _ ending

/-- Texts whose tokens end with a mark are cut apart from what follows them. -/
theorem lexes_append_iff {a x : Text} {ts us : List Token} (ended : Ended ts)
    (covers : Token.source ts = a) : Lexes (a ++ x) (ts ++ us) ↔ Lexes a ts ∧ Lexes x us := by
  subst covers
  cases found : ts.getLast? with
  | none =>
      rw [List.getLast?_eq_none_iff.mp found]
      exact ⟨fun lexed => ⟨.nil, lexed⟩, fun ⟨_, lexed⟩ => lexed⟩
  | some last =>
      obtain ⟨p, mark, marked, text⟩ := ended last found
      obtain ⟨front, rfl⟩ := List.getLast?_eq_some_iff.mp found
      obtain ⟨kind, _⟩ := last
      subst text
      have other : kind ≠ .delim := by
        rintro rfl
        cases marked
      have separate (us : List Token) : Separate front (⟨kind, [p]⟩ :: us) :=
        separate_of_first (by simpa using other)
      have cut {x y : Text} {us vs : List Token}
          (lexed : Lexes (Token.source front ++ p :: x) (front ++ ⟨kind, [p]⟩ :: us))
          (more : Lexes y vs) :
          Lexes (Token.source front ++ p :: y) (front ++ ⟨kind, [p]⟩ :: vs) :=
        lexed.cut (mem_partings mark) mark (apart_of_mark mark) rfl (separate us)
          ((lexes_mark_iff marked).mpr more)
      have ending : Token.source (front ++ [⟨kind, [p]⟩]) = Token.source front ++ [p] :=
        Token.source_append front _
      rw [ending, List.append_assoc, List.append_assoc]
      constructor
      · intro lexed
        exact ⟨cut lexed .nil, (lexes_mark_iff marked).mp (lexed.after rfl (separate us))⟩
      · intro ⟨lexed, more⟩
        exact cut lexed more

end Lexer
end UtilityCss
