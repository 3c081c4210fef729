import Mathlib.Data.List.Chain
import UtilityCss.Proofs.Event.Rereading
import UtilityCss.Proofs.Event.Written

/-!
Sources whose tokens stay apart when they are written. Without comments the values of an event stand
in the source as they are written, between white space or marks, and what is written behind them is
a mark again. So each event is cut into its own tokens, unless a token ends in a way that goes on
past white space or the end of the source.
-/
namespace UtilityCss
open UtilityCss.Token UtilityCss.Lexer

namespace Lexer

theorem isWhitespace_lexeme {c : Char} {rest : Text} {first : Token}
    (found : first ∈ (lexeme c rest).tokens c rest) (white : first.isWhitespace = true) :
    lexeme c rest = .token .whitespace (runLength isSpace rest) := by
  cases lexed : lexeme c rest with
  | token kind more =>
      rw [lexed, Lexeme.tokens, List.mem_singleton] at found
      subst found
      obtain rfl : kind = .whitespace := beq_iff_eq.mp white
      rw [(lexeme_whitespace lexed).2]
  | delims more =>
      rw [lexed, Lexeme.tokens] at found
      obtain ⟨d, _, rfl⟩ := List.mem_map.mp found
      cases white
  | unclosed => simp [lexed, Lexeme.tokens] at found

/-- White space is taken in one go. -/
theorem Lexes.spaces {text : Text} {ts : List Token} (h : Lexes text ts) :
    ts.IsChain fun left right => left.isWhitespace = false ∨ right.isWhitespace = false := by
  induction h with
  | nil => exact .nil
  | @cons c rest ts closed inner ih =>
      rw [List.isChain_append]
      refine ⟨?_, ih, fun left last right first => ?_⟩
      · cases lexeme c rest with
        | token kind more => exact .singleton _
        | delims more =>
            rw [Lexeme.tokens, List.isChain_map]
            exact (List.isChain_isInfix _).imp fun _ _ _ => .inl rfl
        | unclosed => exact .nil
      · cases white : left.isWhitespace with
        | false => exact .inl rfl
        | true =>
            right
            have run := isWhitespace_lexeme (List.mem_of_getLast? last) white
            have stops : runLength isSpace (rest.drop (lexeme c rest).more) = 0 := by
              rw [run]
              exact runLength_drop_self rest
            obtain ⟨ts, rfl⟩ := List.head?_eq_some_iff.mp first
            refine Bool.eq_false_iff.mpr fun white => ?_
            cases text : right.text with
            | nil => exact absurd text (inner.text_ne_nil right List.mem_cons_self)
            | cons d others =>
                have space : isSpace d = true :=
                  inner.whitespace right List.mem_cons_self white d (by simp [text])
                rw [← inner.source, source_cons, text] at stops
                simp [runLength, space] at stops

end Lexer

/-- White space and the marks that part items and groups. -/
def Token.Parts (token : Token) : Prop :=
  token.kind ∈ [Kind.whitespace, .colon, .semicolon, .comma, .leftBrace, .rightBrace]

instance (token : Token) : Decidable token.Parts :=
  inferInstanceAs (Decidable (_ ∈ [Kind.whitespace, _, _, _, _, _]))

theorem Token.Parts.cases {token : Token} (h : token.Parts) :
    token.isWhitespace = true ∨ ∃ p ∈ marks, token.kind.mark? = some p := by
  simp only [Parts, List.mem_cons, List.not_mem_nil, or_false] at h
  rcases h with h | h | h | h | h | h
  · exact .inl (beq_iff_eq.mpr h)
  · exact .inr ⟨':', by decide, by rw [h]; rfl⟩
  · exact .inr ⟨';', by decide, by rw [h]; rfl⟩
  · exact .inr ⟨',', by decide, by rw [h]; rfl⟩
  · exact .inr ⟨'\x7b', by decide, by rw [h]; rfl⟩
  · exact .inr ⟨'\x7d', by decide, by rw [h]; rfl⟩

/-- Tokens that do not run together when they are written: none is a comment or ends with a
backslash, none but white space ends with a blank, and the last one parts. -/
structure Firm (tokens : List Token) : Prop where
  comments : ∀ token ∈ tokens, token.kind ≠ .comment
  backslashes : ∀ token ∈ tokens, token.text.getLast? ≠ some '\\'
  blanks : ∀ token ∈ tokens, token.isWhitespace = false →
    ∀ c ∈ token.text.getLast?, Text.isBlank c = false
  ended : ∀ last ∈ tokens.getLast?, last.Parts

instance (tokens : List Token) : Decidable (Firm tokens) :=
  decidable_of_iff
    ((∀ token ∈ tokens, token.kind ≠ .comment) ∧
      (∀ token ∈ tokens, token.text.getLast? ≠ some '\\') ∧
      (∀ token ∈ tokens, token.isWhitespace = false →
        token.text.getLast?.all (!Text.isBlank ·) = true) ∧
      ∀ last ∈ tokens.getLast?, last.Parts)
    ⟨fun ⟨h₁, h₂, h₃, h₄⟩ => ⟨h₁, h₂, by simpa [Option.all_eq_true] using h₃, h₄⟩,
      fun ⟨h₁, h₂, h₃, h₄⟩ => ⟨h₁, h₂, by simpa [Option.all_eq_true] using h₃, h₄⟩⟩

/-- Tokens that are what their own text is cut into. -/
def Lexed (tokens : List Token) : Prop :=
  Lexes (source tokens) tokens

theorem Firm.of_append {front tokens : List Token} (h : Firm (front ++ tokens)) : Firm tokens where
  comments token inside := h.comments token (List.mem_append_right _ inside)
  backslashes token inside := h.backslashes token (List.mem_append_right _ inside)
  blanks token inside := h.blanks token (List.mem_append_right _ inside)
  ended last found := h.ended last (by rw [List.getLast?_append, found]; rfl)

theorem Firm.of_suffix {tokens tail : List Token} (h : Firm tokens) (suffix : tail <:+ tokens) :
    Firm tail := by
  obtain ⟨front, rfl⟩ := suffix
  exact h.of_append

theorem Lexed.of_append {front tokens : List Token} (h : Lexed (front ++ tokens))
    (separate : Separate front tokens) : Lexed tokens := by
  rw [Lexed, source_append] at h
  exact h.after rfl separate

theorem Token.parts_of_isWhitespace {token : Token} (h : token.isWhitespace = true) :
    token.Parts := by
  have kind : token.kind = .whitespace := beq_iff_eq.mp h
  simp [Parts, kind]

theorem Token.Parts.kind_ne_delim {token : Token} (h : token.Parts) : token.kind ≠ .delim := by
  intro delim
  simp [Parts, delim] at h

theorem getLast?_source {tokens : List Token} {c : Char} (h : (source tokens).getLast? = some c) :
    ∃ token ∈ tokens, token.text.getLast? = some c := by
  induction tokens with
  | nil => cases h
  | cons token rest ih =>
      rw [source_cons, List.getLast?_append] at h
      cases last : (source rest).getLast? with
      | none =>
          rw [last] at h
          exact ⟨token, List.mem_cons_self, h⟩
      | some d =>
          rw [last] at h
          cases h
          obtain ⟨found, inside, ends⟩ := ih last
          exact ⟨found, List.mem_cons_of_mem _ inside, ends⟩

theorem Firm.apart {tokens back : List Token} (h : Firm (tokens ++ back)) (p : Char) :
    Apart (source tokens) p := by
  rintro _ ⟨front, whole⟩
  have last : (source tokens).getLast? = some '\\' := by
    rw [← whole, List.getLast?_concat]
  obtain ⟨token, inside, ends⟩ := getLast?_source last
  exact h.backslashes token (List.mem_append_left _ inside) ends

/-- The character that a token which parts begins with. -/
theorem Lexed.parting {tokens : List Token} (h : Lexed tokens) {token : Token}
    (inside : token ∈ tokens) (parts : token.Parts) :
    ∃ p rest, token.text = p :: rest ∧ p ∈ partings := by
  obtain white | ⟨p, mark, marked⟩ := parts.cases
  · have filled := h.text_ne_nil token inside
    have spaces := h.whitespace token inside white
    cases text : token.text with
    | nil => exact absurd text filled
    | cons p rest =>
        refine ⟨p, rest, rfl, ?_⟩
        have space := spaces p (by simp [text])
        simp only [isSpace, Bool.or_eq_true, beq_iff_eq] at space
        rcases space with (((rfl | rfl) | rfl) | rfl) | rfl <;> decide
  · exact ⟨p, [], h.regular token inside p marked, mem_partings mark⟩

theorem lexed_mark {token : Token} {rest : List Token} {p : Char}
    (marked : token.kind.mark? = some p) (text : token.text = [p]) (lexed : Lexed rest) :
    Lexed (token :: rest) := by
  obtain ⟨kind, _⟩ := token
  subst text
  exact (lexes_mark_iff marked).mpr lexed

/-- Tokens that stand in a source which keeps its tokens apart, in front of one that parts or at the
end. -/
structure Stands (body back : List Token) : Prop where
  firm : Firm (body ++ back)
  lexed : Lexed (body ++ back)
  next : ∀ token ∈ back.head?, token.Parts

theorem endsSolid_trimEnd (tokens : List Token) : EndsSolid (trimEnd tokens) := by
  intro token found
  rw [trimEnd, List.getLast?_reverse] at found
  have head := List.head?_dropWhile_not (·.isWhitespace) tokens.reverse
  rwa [found] at head

theorem trimEnd_cons {token : Token} (solid : token.isWhitespace = false) (rest : List Token) :
    trimEnd (token :: rest) = token :: trimEnd rest := by
  rw [trimEnd, List.reverse_cons, List.dropWhile_append]
  split
  next none =>
    rw [List.isEmpty_iff] at none
    simp [solid, trimEnd, none]
  next => simp [trimEnd]

namespace Stands
variable {body back : List Token}

theorem of_append {front : List Token} (h : Stands (front ++ body) back)
    (apart : ∀ last ∈ front.getLast?, last.kind ≠ .delim) : Stands body back where
  firm := by
    have whole := h.firm
    rw [List.append_assoc] at whole
    exact whole.of_append
  lexed := by
    have whole := h.lexed
    rw [List.append_assoc] at whole
    exact whole.of_append (separate_of_last apart)
  next := h.next

/-- Tokens in front of one that parts are cut in front of a mark as they are in the source. -/
theorem lexed_append (h : Stands body back) (ends : back = [] → EndsSolid body) {closing : Token}
    {others : List Token} {q : Char} (mark : q ∈ marks) (text : closing.text = [q])
    (more : Lexed (closing :: others)) : Lexed (body ++ closing :: others) := by
  obtain ⟨firm, lexed, next⟩ := h
  cases back with
  | nil =>
      rw [List.append_nil] at firm lexed
      have ended : Ended body := by
        intro last found
        obtain white | ⟨p, mark, marked⟩ := (firm.ended last found).cases
        · rw [ends rfl last found] at white
          cases white
        · exact ⟨p, mark, marked, lexed.regular last (List.mem_of_getLast? found) p marked⟩
      rw [Lexed, source_append]
      exact (lexes_append_iff ended rfl).mpr ⟨lexed, more⟩
  | cons token rest =>
      have parts := next token rfl
      obtain ⟨p, tail, begins, parting⟩ := lexed.parting (by simp) parts
      have separate : Separate body (token :: rest) :=
        separate_of_first (by simpa using parts.kind_ne_delim)
      rw [Lexed, source_append, source_cons, begins] at lexed
      rw [Lexed, source_cons, text] at more
      rw [Lexed, source_append, source_cons, text]
      exact Lexes.cut parting mark (firm.apart p) lexed rfl separate more

theorem lexed_trimEnd (h : Stands body back) {closing : Token} {others : List Token} {q : Char}
    (mark : q ∈ marks) (text : closing.text = [q]) (more : Lexed (closing :: others)) :
    Lexed (trimEnd body ++ closing :: others) := by
  obtain ⟨spaces, whole, white⟩ := trimEnd_append_spaces body
  have inner : Stands (trimEnd body) (spaces ++ back) := by
    obtain ⟨firm, lexed, next⟩ := h
    rw [← whole, List.append_assoc] at firm lexed
    refine ⟨firm, lexed, fun token found => ?_⟩
    cases spaces with
    | nil => exact next token found
    | cons =>
        cases found
        exact parts_of_isWhitespace (white _ List.mem_cons_self)
  exact inner.lexed_append (fun _ => endsSolid_trimEnd body) mark text more

theorem dropWhile (h : Stands body back) : Stands (body.dropWhile (·.isWhitespace)) back := by
  have parts := List.takeWhile_append_dropWhile (p := (·.isWhitespace)) (l := body)
  rw [← parts] at h
  refine h.of_append fun last found delim => ?_
  have white : last.isWhitespace = true :=
    List.all_eq_true.mp List.all_takeWhile last (List.mem_of_getLast? found)
  simp [isWhitespace, delim] at white

theorem values_eq (h : Stands body back) : body.foldl Parser.addValue [] = body.reverse := by
  have comments (token : Token) (inside : token ∈ body) : token.kind ≠ .comment :=
    h.firm.comments token (List.mem_append_left _ inside)
  rw [Parser.foldl_addValue_of_fits comments h.lexed.spaces.left_of_append (by simp),
    List.append_nil]

theorem atRuleValues_eq (h : Stands body back) : Parser.atRuleValues body = trimEnd body := by
  rw [Parser.atRuleValues, h.values_eq, trimEnd]

theorem trimmedValues_eq (h : Stands body back) :
    Parser.trimmedValues body = trimEnd (body.dropWhile (·.isWhitespace)) := by
  rw [Parser.trimmedValues, Parser.values, h.values_eq, List.reverse_reverse, trimWhitespace,
    trimEnd]

/-- Trimmed text is the text of the trimmed tokens. -/
theorem trimEnd_source (h : Stands body back) :
    Text.trimEnd (source body) = source (trimEnd body) := by
  have blanks (token : Token) (inside : token ∈ body) (white : token.isWhitespace = true) (c : Char)
      (found : c ∈ token.text) : Text.isBlank c :=
    Parser.isBlank_of_isSpace
      (h.lexed.whitespace token (List.mem_append_left _ inside) white c found)
  have filled (token : Token) (inside : token ∈ body) : token.text ≠ [] :=
    h.lexed.text_ne_nil token (List.mem_append_left _ inside)
  refine (Token.trimEnd_source_eq_iff filled blanks).mpr ?_
  intro last ends c final
  have trimmed := trimEnd_prefix body
  have inside := trimmed.subset (List.mem_of_getLast? ends)
  exact h.firm.blanks last (List.mem_append_left _ inside) (endsSolid_trimEnd body last ends) c
    final

end Stands

namespace Parser

theorem Item.Scanned.rest_parts {tokens : List Token} {item : Item} (h : Item.Scanned tokens item) :
    ∀ token ∈ item.rest.head?, token.Parts := by
  intro token first
  obtain ⟨_, none⟩ | ⟨_, stop, more, rest, ends⟩ := h.ended
  · rw [none] at first
    cases first
  · rw [rest] at first
    cases first
    obtain ⟨kind, _⟩ | ⟨kind, _⟩ | ⟨kind, _⟩ := Stop.ofKind?_eq_some ends <;> simp [Parts, kind]

theorem Item.Scanned.lexed_rest {tokens : List Token} {item : Item} (h : Item.Scanned tokens item)
    (lexed : Lexed tokens) : Lexed item.rest := by
  rw [← h.cover] at lexed
  exact lexed.of_append
    (separate_of_first fun token first => (h.rest_parts token first).kind_ne_delim)

theorem lexed_tail {token : Token} {rest : List Token} (lexed : Lexed (token :: rest))
    (whole : token.kind ≠ .delim) : Lexed rest :=
  @Lexed.of_append [token] rest lexed (separate_of_last (by simpa using whole))

theorem lexed_after {tokens : List Token} (lexed : Lexed tokens) :
    Lexed (Item.scan tokens).after := by
  have scanned := Item.scan_scanned tokens
  have rest := scanned.lexed_rest lexed
  have parts := scanned.rest_parts
  rw [Item.after]
  split
  case h_1 | h_2 =>
    cases h : (Item.scan tokens).rest with
    | nil => exact .nil
    | cons token more =>
        rw [h] at rest parts
        exact lexed_tail rest (parts token rfl).kind_ne_delim
  all_goals exact rest

theorem lexed_skipTrivial {tokens : List Token} (lexed : Lexed tokens) (semicolons : Bool) :
    Lexed (skipTrivial semicolons tokens) := by
  induction tokens with
  | nil => exact lexed
  | cons token rest ih =>
      rw [skipTrivial, List.dropWhile_cons]
      split
      next skipped =>
        refine ih (lexed_tail lexed fun delim => ?_)
        simp [isWhitespace, delim] at skipped
      next => exact lexed

/-- White space may stand in front of the colon of a declaration. -/
theorem skipTrivial_colon {rest more : List Token} {text : Text}
    (found : skipTrivial false rest = ⟨.colon, text⟩ :: more) :
    ∀ first ∈ rest.head?, first.Parts := by
  intro first head
  cases rest with
  | nil => cases head
  | cons token rest =>
      cases head
      rw [skipTrivial, List.dropWhile_cons] at found
      split at found
      next white => exact parts_of_isWhitespace (by simpa using white)
      next =>
        cases found
        simp [Token.Parts]

theorem lexed_after_name {name : Token} {rest more : List Token} {text : Text}
    (found : skipTrivial false rest = ⟨.colon, text⟩ :: more) (lexed : Lexed (name :: rest)) :
    Lexed more := by
  have separate : Separate [name] rest :=
    separate_of_first fun first head => (skipTrivial_colon found first head).kind_ne_delim
  have rest : Lexed rest := @Lexed.of_append [name] rest lexed separate
  exact lexed_tail (found ▸ lexed_skipTrivial rest false) (by simp)

theorem Reads.lexed {blocks : List Block} {unread : List Token} {events : List Event} {next : State}
    (h : Reads blocks unread events next) (lexed : Lexed unread) : Lexed next.rest := by
  cases h with
  | ended => exact .nil
  | closed | comment => exact lexed_tail lexed (by simp)
  | marker kind => exact lexed_tail lexed (by rcases kind with rfl | rfl <;> simp)
  | atRule _ | beginAtRule _ => exact lexed_after (lexed_tail lexed (by simp))
  | selectors _ _ _ => exact lexed_after lexed
  | declaration _ found _ => exact lexed_after (lexed_after_name found lexed)

theorem stands_of_scan {tokens : List Token} (firm : Firm tokens) (lexed : Lexed tokens) :
    Stands (Item.scan tokens).tokens (Item.scan tokens).rest :=
  have scanned := Item.scan_scanned tokens
  ⟨scanned.cover.symm ▸ firm, scanned.cover.symm ▸ lexed, scanned.rest_parts⟩

theorem stands_of_mem_commaJoined {groups : List (List Token)} {group rest : List Token}
    (inside : group ∈ groups) (h : Stands (commaJoined groups) rest) :
    ∃ back, Stands group back := by
  induction groups with
  | nil => cases inside
  | cons first others ih =>
      cases others with
      | nil =>
          cases List.mem_singleton.mp inside
          exact ⟨rest, h⟩
      | cons next others =>
          rw [commaJoined_cons (by simp)] at h
          obtain rfl | later := List.mem_cons.mp inside
          · refine ⟨comma :: commaJoined (next :: others) ++ rest, ?_, ?_, ?_⟩
            · simpa using h.firm
            · simpa using h.lexed
            · intro token found
              cases found
              decide
          · refine ih later (@Stands.of_append _ _ (first ++ [comma]) (by simpa using h) ?_)
            simp [comma]

theorem Traced.kept_of_lexed {t : Traced}
    (raw : ∀ name raw, t.event = .customProperty name raw → raw = source (trimEnd t.rawTokens))
    (lexed : Lexed t.written) : t.Kept := by
  rw [Kept, written_eq_source raw, tokens_eq_ok_iff]
  exact lexed

section Closing
variable {closing : Token} {q : Char} (mark : q ∈ marks) (marked : closing.kind.mark? = some q)
  (text : closing.text = [q])
include mark marked text

theorem lexed_atRule {name : Text} {rest : List Token} (firm : Firm (⟨.atKeyword, name⟩ :: rest))
    (lexed : Lexed (⟨.atKeyword, name⟩ :: rest)) :
    Lexed (⟨.atKeyword, name⟩ :: atRuleValues (Item.scan rest).tokens ++ [closing]) := by
  have scanned := Item.scan_scanned rest
  have stands : Stands (⟨.atKeyword, name⟩ :: (Item.scan rest).tokens) (Item.scan rest).rest := by
    rw [← scanned.cover] at firm lexed
    exact ⟨firm, lexed, scanned.rest_parts⟩
  have values : Stands (Item.scan rest).tokens (Item.scan rest).rest :=
    @Stands.of_append _ _ [⟨.atKeyword, name⟩] stands (by simp)
  rw [values.atRuleValues_eq, ← trimEnd_cons rfl]
  exact stands.lexed_trimEnd mark text (lexed_mark marked text .nil)

theorem lexed_group {unread group : List Token} (firm : Firm unread) (lexed : Lexed unread)
    (inside : group ∈ (splitGroups (Item.scan unread).tokens).map trimmedValues) :
    Lexed (group ++ [closing]) := by
  obtain ⟨part, listed, rfl⟩ := List.mem_map.mp inside
  have item := stands_of_scan firm lexed
  have regular : ∀ token ∈ (Item.scan unread).tokens, token.Regular := fun token inside =>
    item.lexed.regular token (List.mem_append_left _ inside)
  have whole :
      Stands (commaJoined (splitGroups (Item.scan unread).tokens)) (Item.scan unread).rest := by
    rw [commaJoined_splitGroups regular]
    exact item
  obtain ⟨back, stands⟩ := stands_of_mem_commaJoined listed whole
  rw [stands.trimmedValues_eq]
  exact stands.dropWhile.lexed_trimEnd mark text (lexed_mark marked text .nil)

end Closing

theorem kept_declaration {name : Token} {rest more : List Token} {text : Text}
    (found : skipTrivial false rest = ⟨.colon, text⟩ :: more) (firm : Firm (name :: rest))
    (lexed : Lexed (name :: rest)) :
    (Traced.mk (declarationEvent name (Item.scan more).tokens) (name :: rest)).Kept := by
  have suffix := (suffix_of_skipTrivial found).trans (List.suffix_cons name rest)
  have item := stands_of_scan (firm.of_suffix suffix) (lexed_after_name found lexed)
  have named : Stands [name] rest := ⟨firm, lexed, skipTrivial_colon found⟩
  have separate : rest ≠ [] := by
    rintro rfl
    cases found
  have whole {values : List Token} (valued : Lexed (values ++ [semicolon])) :
      Lexed (name :: colon :: values ++ [semicolon]) :=
    named.lexed_append (fun none => absurd none separate) (q := ':') (by decide) rfl
      (lexed_mark rfl rfl valued)
  have ended : Lexed [semicolon] := lexed_mark rfl rfl .nil
  rw [declarationEvent]
  split
  · have raw : (Traced.mk
        (.customProperty name.text (Text.trimEnd (source (Item.scan more).tokens)))
        (name :: rest)).rawTokens = (Item.scan more).tokens := by
      simp [Traced.rawTokens, found]
    refine Traced.kept_of_lexed (fun _ _ same => ?_) ?_
    · cases same
      rw [raw, item.trimEnd_source]
    · rw [Traced.written, Traced.body, raw]
      exact whole (item.lexed_trimEnd (q := ';') (by decide) rfl ended)
  · refine Traced.kept_of_lexed (by simp) (whole ?_)
    rw [item.trimmedValues_eq]
    exact item.dropWhile.lexed_trimEnd (q := ';') (by decide) rfl ended

/-- The events of a firm source are cut into their own tokens. -/
theorem Reads.kept {blocks : List Block} {unread : List Token} {events : List Event} {next : State}
    (h : Reads blocks unread events next) (firm : Firm unread) (lexed : Lexed unread) {e : Event}
    (inside : e ∈ events) : (Traced.mk e unread).Kept := by
  cases h with
  | @ended block | @closed block =>
      rw [List.mem_singleton] at inside
      subst inside
      cases block <;> exact Traced.kept_of_lexed (by simp [Block.ended]) (lexed_mark rfl rfl .nil)
  | comment | marker _ =>
      rw [List.mem_singleton] at inside
      subst inside
      exact Traced.kept_of_lexed (by simp) .nil
  | atRule _ =>
      rw [List.mem_singleton] at inside
      subst inside
      exact Traced.kept_of_lexed (by simp) (lexed_atRule (q := ';') (by decide) rfl rfl firm lexed)
  | beginAtRule _ =>
      rw [List.mem_singleton] at inside
      subst inside
      exact Traced.kept_of_lexed (by simp)
        (lexed_atRule (q := '\x7b') (by decide) rfl rfl firm lexed)
  | selectors stop groups full =>
      subst groups
      obtain ⟨group, listed, rfl | rfl⟩ := mem_selectorEvents inside
      · exact Traced.kept_of_lexed (by simp)
          (lexed_group (q := ',') (by decide) rfl rfl firm lexed listed)
      · exact Traced.kept_of_lexed (by simp)
          (lexed_group (q := '\x7b') (by decide) rfl rfl firm lexed listed)
  | declaration _ found _ =>
      rw [List.mem_singleton] at inside
      subst inside
      exact kept_declaration found firm lexed

/-- The events of a firm source are cut into their own tokens, all along its reading. -/
theorem kept_of_firm {css : Text} {tokens : List Token} (cut : Lexer.tokens css = .ok tokens)
    (firm : Firm tokens) (inline : Bool) : ∀ t ∈ trace inline ⟨tokens, []⟩, t.Kept := by
  intro t inside
  have lexed : Lexed tokens := by
    have lexes := tokens_eq_ok_iff.mp cut
    rw [Lexed, lexes.source]
    exact lexes
  have skip (semicolons : Bool) (unread : List Token) (h : unread <:+ tokens ∧ Lexed unread) :
      skipTrivial semicolons unread <:+ tokens ∧ Lexed (skipTrivial semicolons unread) :=
    ⟨(skipTrivial_suffix semicolons unread).trans h.1, lexed_skipTrivial h.2 semicolons⟩
  obtain ⟨⟨suffix, here⟩, _, _, _, reads, read⟩ := trace_invariant skip
    (fun _ _ _ _ reads h => ⟨reads.rest_suffix.trans h.1, reads.lexed h.2⟩)
    ⟨List.suffix_refl _, lexed⟩ inside
  exact reads.kept (firm.of_suffix suffix) here read

end Parser
end UtilityCss
