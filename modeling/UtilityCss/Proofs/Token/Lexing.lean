import UtilityCss.Token.Lexer

/-!
The lexer as a relation: a text and the tokens it is cut into, lexeme by lexeme. The tokens cover
the text, and a token of a punctuation kind is the one character the kind stands for.
-/
namespace UtilityCss

/-- The one character of a punctuation kind. -/
def Kind.mark? : Kind → Option Char
  | colon => some ':'
  | semicolon => some ';'
  | comma => some ','
  | leftBracket => some '['
  | rightBracket => some ']'
  | leftParen => some '('
  | rightParen => some ')'
  | leftBrace => some '\x7b'
  | rightBrace => some '\x7d'
  | _ => none

/-- Tokens of punctuation kinds are written as the character of their kind. -/
def Token.Regular (token : Token) : Prop :=
  ∀ c, token.kind.mark? = some c → token.text = [c]

namespace Lexer

namespace Lexeme

/-- The number of characters taken beyond the first. -/
def more : Lexeme → Nat
  | token _ more | delims more => more
  | unclosed => 0

def tokens (c : Char) (rest : Text) : Lexeme → List Token
  | token kind more => [⟨kind, c :: rest.take more⟩]
  | delims more => (c :: rest.take more).map delim
  | unclosed => []

theorem source_tokens {l : Lexeme} (c : Char) (rest : Text) (closed : l ≠ .unclosed) :
    Token.source (l.tokens c rest) = c :: rest.take l.more := by
  cases l with
  | token kind more => simp [tokens, Token.source, Lexeme.more]
  | delims more =>
      simp only [tokens, Token.source, List.flatMap_map]
      exact List.flatMap_singleton' _
  | unclosed => exact absurd rfl closed

end Lexeme

inductive Lexes : Text → List Token → Prop
  | nil : Lexes [] []
  | cons {c rest ts} : lexeme c rest ≠ .unclosed → Lexes (rest.drop (lexeme c rest).more) ts →
      Lexes (c :: rest) ((lexeme c rest).tokens c rest ++ ts)

theorem foldl_delim (found : List Token) (chars : Text) :
    chars.foldl (fun acc c => delim c :: acc) found = (chars.map delim).reverse ++ found := by
  induction chars generalizing found with
  | nil => rfl
  | cons c chars ih => simp [ih]

theorem tokensFrom_cons {found : List Token} {c : Char} {rest : Text}
    (closed : lexeme c rest ≠ .unclosed) :
    tokensFrom found (c :: rest) =
      tokensFrom (((lexeme c rest).tokens c rest).reverse ++ found)
        (rest.drop (lexeme c rest).more) := by
  rw [tokensFrom]
  cases h : lexeme c rest with
  | token kind more => rfl
  | delims more =>
      simp only [foldl_delim]
      simp [Lexeme.tokens, Lexeme.more]
  | unclosed => exact absurd h closed

theorem tokensFrom_unclosed {found : List Token} {c : Char} {rest : Text}
    (unclosed : lexeme c rest = .unclosed) :
    tokensFrom found (c :: rest) = .error (c :: rest) := by
  rw [tokensFrom, unclosed]

theorem Lexes.tokensFrom {text : Text} {ts : List Token} (h : Lexes text ts)
    (found : List Token) : tokensFrom found text = .ok (found.reverse ++ ts) := by
  induction h generalizing found with
  | nil => rw [Lexer.tokensFrom, List.append_nil]
  | cons closed _ ih =>
      rw [tokensFrom_cons closed, ih]
      simp

theorem lexes_of_tokensFrom {found result : List Token} (text : Text)
    (h : tokensFrom found text = .ok result) :
    ∃ ts, Lexes text ts ∧ result = found.reverse ++ ts := by
  match text with
  | [] =>
      rw [tokensFrom] at h
      exact ⟨[], .nil, by simpa using (Except.ok.inj h).symm⟩
  | c :: rest =>
      by_cases unclosed : lexeme c rest = .unclosed
      · rw [tokensFrom_unclosed unclosed] at h
        cases h
      · rw [tokensFrom_cons unclosed] at h
        obtain ⟨ts, lexes, rfl⟩ := lexes_of_tokensFrom (rest.drop (lexeme c rest).more) h
        exact ⟨_, .cons unclosed lexes, by simp⟩
termination_by text.length
decreasing_by
  rw [List.length_drop, List.length_cons]
  omega

theorem tokens_eq_ok_iff {text : Text} {ts : List Token} :
    tokens text = .ok ts ↔ Lexes text ts := by
  constructor
  · intro h
    obtain ⟨ts, lexes, rfl⟩ := lexes_of_tokensFrom text h
    exact lexes
  · intro h
    exact h.tokensFrom []

/-- The tokens that a raw text is cut into. -/
def rawTokens (raw : Text) : List Token :=
  (tokens raw).toOption.getD []

theorem rawTokens_of_ok {raw : Text} {ts : List Token} (h : tokens raw = .ok ts) :
    rawTokens raw = ts := by
  rw [rawTokens, h]
  rfl

theorem Lexes.source {text : Text} {ts : List Token} (h : Lexes text ts) :
    Token.source ts = text := by
  induction h with
  | nil => rfl
  | @cons c rest ts closed _ ih =>
      rw [Token.source, List.flatMap_append, ← Token.source, ← Token.source, ih,
        Lexeme.source_tokens c rest closed, List.cons_append, List.take_append_drop]

theorem numeric_kind {mantissa : Nat} {text : Text} {kind : Kind} {more : Nat}
    (h : numeric mantissa text = .token kind more) :
    kind ∈ [Kind.percentage, .number, .dimension] := by
  simp only [numeric] at h
  repeat' split at h
  all_goals
    cases h
    decide

theorem address_kind {rest : Text} {kind : Kind} {more : Nat}
    (h : address rest = .token kind more) : kind ∈ [Kind.url, .ident, .function] := by
  simp only [address] at h
  repeat' split at h
  all_goals
    cases h
    try decide

theorem word_kind {ident : Nat} {text : Text} {kind : Kind} {more : Nat}
    (h : word ident text = .token kind more) : kind ∈ [Kind.url, .ident, .function] := by
  simp only [word] at h
  split at h
  · split at h
    · exact address_kind h
    · cases h
      decide
  · cases h
    decide

/-- The kinds of which no more is told than that. -/
def plainKinds : List Kind :=
  [.cdo, .cdc, .atKeyword, .hash, .percentage, .number, .dimension, .url, .ident, .function]

/-- What a lexeme tells of the text that it is read from. -/
inductive Shows (c : Char) (rest : Text) : Kind → Nat → Prop
  | space : isSpace c = true → Shows c rest .whitespace (runLength isSpace rest)
  | mark {kind} : kind.mark? = some c → Shows c rest kind 0
  | comment {inner} : c = '/' → rest = '*' :: inner →
      Shows c rest .comment (commentLengthFrom 1 inner)
  | string {more} : c = '\x22' ∨ c = '\x27' → stringLengthFrom c 0 rest = some more →
      Shows c rest .string more
  | plain {kind more} : kind ∈ plainKinds → Shows c rest kind more

theorem lexeme_shows {c : Char} {rest : Text} {kind : Kind} {more : Nat}
    (h : lexeme c rest = .token kind more) : Shows c rest kind more := by
  simp only [lexeme] at h
  split at h
  next space =>
    cases h
    exact .space space
  split at h
  case h_1 =>
    cases h
    exact .comment rfl rfl
  case h_2 | h_3 =>
    cases h
    exact .plain (by decide)
  case h_13 | h_14 =>
    split at h <;> cases h
    exact .plain (by decide)
  case h_15 =>
    have numbers : [Kind.percentage, .number, .dimension] ⊆ plainKinds := by decide
    have words : [Kind.url, .ident, .function] ⊆ plainKinds := by decide
    split at h
    next quote =>
      split at h <;> cases h
      next closed => exact .string (by simpa using quote) closed
    split at h
    · exact .plain (numbers (numeric_kind h))
    split at h
    · exact .plain (words (word_kind h))
    · cases h
  all_goals
    cases h
    exact .mark rfl

theorem lexeme_mark {c mark : Char} {rest : Text} {kind : Kind} {more : Nat}
    (h : lexeme c rest = .token kind more) (marked : kind.mark? = some mark) :
    c = mark ∧ more = 0 := by
  have unmarked : ∀ kind ∈ plainKinds, kind.mark? = none := by decide
  cases lexeme_shows h with
  | space _ | comment _ _ | string _ _ => cases marked
  | mark same => exact ⟨Option.some.inj (same.symm.trans marked), rfl⟩
  | plain other => cases (unmarked kind other).symm.trans marked

theorem lexeme_whitespace {c : Char} {rest : Text} {more : Nat}
    (h : lexeme c rest = .token .whitespace more) :
    isSpace c = true ∧ more = runLength isSpace rest := by
  cases lexeme_shows h with
  | space space => exact ⟨space, rfl⟩
  | mark marked => cases marked
  | plain other => exact absurd other (by decide)

theorem lexeme_ne_delim {c : Char} {rest : Text} {kind : Kind} {more : Nat}
    (h : lexeme c rest = .token kind more) : kind ≠ .delim := by
  rintro rfl
  cases lexeme_shows h with
  | mark marked => cases marked
  | plain other => exact absurd other (by decide)

theorem lexeme_string {c : Char} {rest : Text} {more : Nat}
    (h : lexeme c rest = .token .string more) :
    (c = '\x22' ∨ c = '\x27') ∧ stringLengthFrom c 0 rest = some more := by
  cases lexeme_shows h with
  | string quote closed => exact ⟨quote, closed⟩
  | mark marked => cases marked
  | plain other => exact absurd other (by decide)

theorem lexeme_comment {c : Char} {rest : Text} {more : Nat}
    (h : lexeme c rest = .token .comment more) :
    c = '/' ∧ ∃ inner, rest = '*' :: inner ∧ more = commentLengthFrom 1 inner := by
  cases lexeme_shows h with
  | comment slash star => exact ⟨slash, _, star, rfl⟩
  | mark marked => cases marked
  | plain other => exact absurd other (by decide)

/-- What is proved of the tokens of every lexeme holds for all tokens of a text. -/
theorem Lexes.forall_mem {text : Text} {ts : List Token} {P : Token → Prop} (h : Lexes text ts)
    (delims : ∀ c, P (delim c))
    (token : ∀ c rest kind more, lexeme c rest = .token kind more → P ⟨kind, c :: rest.take more⟩) :
    ∀ token ∈ ts, P token := by
  induction h with
  | nil => simp
  | @cons c rest ts closed _ ih =>
      rw [List.forall_mem_append]
      refine ⟨?_, ih⟩
      cases hl : lexeme c rest with
      | token kind more => simpa [Lexeme.tokens] using token c rest kind more hl
      | delims more =>
          simp only [Lexeme.tokens, List.forall_mem_map]
          exact fun c _ => delims c
      | unclosed => exact absurd hl closed

theorem Lexes.text_ne_nil {text : Text} {ts : List Token} (h : Lexes text ts) :
    ∀ token ∈ ts, token.text ≠ [] :=
  h.forall_mem (fun _ => List.cons_ne_nil _ _) fun _ _ _ _ _ => List.cons_ne_nil _ _

theorem Lexes.regular {text : Text} {ts : List Token} (h : Lexes text ts) :
    ∀ token ∈ ts, token.Regular := by
  refine h.forall_mem (fun _ => nofun) fun c rest kind more lexed mark marked => ?_
  obtain ⟨rfl, rfl⟩ := lexeme_mark lexed marked
  rfl

theorem Lexes.whitespace {text : Text} {ts : List Token} (h : Lexes text ts) :
    ∀ token ∈ ts, token.isWhitespace = true → ∀ c ∈ token.text, isSpace c = true := by
  refine h.forall_mem (fun _ => nofun) fun c rest kind more lexed white => ?_
  obtain rfl : kind = .whitespace := beq_iff_eq.mp white
  obtain ⟨space, rfl⟩ := lexeme_whitespace lexed
  rw [List.forall_mem_cons]
  refine ⟨space, fun d inside => ?_⟩
  have run : rest.take (runLength isSpace rest) = rest.takeWhile isSpace :=
    (List.prefix_iff_eq_take.mp (List.takeWhile_prefix isSpace)).symm
  rw [run] at inside
  exact List.all_eq_true.mp List.all_takeWhile d inside

end Lexer
end UtilityCss
