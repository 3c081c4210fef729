import UtilityCss.Proofs.Event.Tokens
import UtilityCss.Proofs.Text.Trim
import UtilityCss.Proofs.Token.Boundary

/-!
The tokens that events are written as. Every event that is written ends with a mark, so its text is
cut into tokens by itself, whatever is written in front of it or after it.
-/
namespace UtilityCss
open UtilityCss.Token UtilityCss.Lexer

/-- The mark an event ends with. Comments and markup escapes are not written. -/
def Event.closing : Event → List Token
  | atRule _ _ | declaration _ _ | customProperty _ _ => [semicolon]
  | beginAtRule _ _ | beginRuleset _ => [leftBrace]
  | selectorGroup _ => [comma]
  | endAtRule | endRuleset => [rightBrace]
  | marker _ | comment _ => []

namespace Token

def trimEnd (tokens : List Token) : List Token :=
  (tokens.reverse.dropWhile (·.isWhitespace)).reverse

theorem trimEnd_append_spaces (tokens : List Token) :
    ∃ spaces, trimEnd tokens ++ spaces = tokens ∧ ∀ token ∈ spaces, token.isWhitespace = true := by
  have parts := List.takeWhile_append_dropWhile (p := (·.isWhitespace)) (l := tokens.reverse)
  refine ⟨(tokens.reverse.takeWhile (·.isWhitespace)).reverse, ?_, ?_⟩
  · rw [trimEnd, ← List.reverse_append, parts, List.reverse_reverse]
  · intro token inside
    exact List.all_eq_true.mp List.all_takeWhile token (List.mem_reverse.mp inside)

theorem trimEnd_prefix (tokens : List Token) : trimEnd tokens <+: tokens :=
  have ⟨spaces, whole, _⟩ := trimEnd_append_spaces tokens
  ⟨spaces, whole⟩

end Token

theorem Token.trimEnd_source {tokens : List Token}
    (spaces : ∀ token ∈ tokens, token.isWhitespace = true → ∀ c ∈ token.text, Text.isBlank c) :
    Text.trimEnd (source tokens) = Text.trimEnd (source (trimEnd tokens)) := by
  obtain ⟨last, whole, white⟩ := trimEnd_append_spaces tokens
  have blank : ∀ c ∈ source last, Text.isBlank c := by
    intro c inside
    obtain ⟨token, member, inside⟩ := List.mem_flatMap.mp inside
    exact spaces token (whole ▸ List.mem_append_right _ member) (white token member) c inside
  have parts : source tokens = source (trimEnd tokens) ++ source last := by
    rw [← source_append, whole]
  rw [parts, Text.trimEnd_append blank]

theorem Token.getLast?_source_of_filled {tokens : List Token}
    (filled : ∀ token ∈ tokens, token.text ≠ []) :
    (source tokens).getLast? = tokens.getLast?.bind (·.text.getLast?) := by
  cases last : tokens.getLast? with
  | none =>
      rw [List.getLast?_eq_none_iff.mp last]
      rfl
  | some token =>
      have some := filled token (List.mem_of_getLast? last)
      obtain ⟨front, rfl⟩ := List.getLast?_eq_some_iff.mp last
      simp [source, List.getLast?_append, List.getLast?_eq_some_getLast some]

/-- Trimming the text of tokens takes away no more than trimming the tokens does exactly where no
blank is left at the end. -/
theorem Token.trimEnd_source_eq_iff {tokens : List Token}
    (filled : ∀ token ∈ tokens, token.text ≠ [])
    (spaces : ∀ token ∈ tokens, token.isWhitespace = true → ∀ c ∈ token.text, Text.isBlank c) :
    Text.trimEnd (source tokens) = source (trimEnd tokens) ↔
      ∀ last ∈ (trimEnd tokens).getLast?, ∀ c ∈ last.text.getLast?, Text.isBlank c = false := by
  have trimmed := trimEnd_prefix tokens
  have kept : ∀ token ∈ trimEnd tokens, token.text ≠ [] := fun token inside =>
    filled token (trimmed.subset inside)
  rw [trimEnd_source spaces, Text.trimEnd_eq_self_iff, getLast?_source_of_filled kept]
  cases (trimEnd tokens).getLast? <;> simp

theorem Token.length_trimEnd_source {tokens : List Token}
    (spaces : ∀ token ∈ tokens, token.isWhitespace = true → ∀ c ∈ token.text, Text.isBlank c) :
    (Text.trimEnd (source tokens)).length ≤ (source (trimEnd tokens)).length := by
  rw [trimEnd_source spaces]
  exact Text.length_trimEnd_le _

namespace Parser.Traced

/-- What is written of an event in front of its mark. A custom property is written as the tokens of
its source less the white space at the end. -/
def body (t : Traced) : List Token :=
  match t.event with
  | .atRule name values | .beginAtRule name values => ⟨.atKeyword, name⟩ :: values
  | .selectorGroup selector | .beginRuleset selector => selector
  | .declaration name values => t.nameToken name :: colon :: values
  | .customProperty name _ => t.nameToken name :: colon :: trimEnd t.rawTokens
  | .endAtRule | .endRuleset | .marker _ | .comment _ => []

def written (t : Traced) : List Token :=
  t.body ++ t.event.closing

/-- The text of an event is cut into the tokens it is written as. -/
def Kept (t : Traced) : Prop :=
  Lexer.tokens t.event.written = .ok t.written

instance (t : Traced) : Decidable t.Kept :=
  match cut : Lexer.tokens t.event.written with
  | .ok ts => decidable_of_iff (ts = t.written) (by rw [Kept, cut, Except.ok.injEq])
  | .error _ => .isFalse (by rw [Kept, cut]; exact nofun)

theorem written_ended (t : Traced) : Ended t.written := by
  have ended {mark : Token} (h : mark ∈ [semicolon, comma, leftBrace, rightBrace])
      (body : List Token) : Ended (body ++ [mark]) := by
    intro last found
    rw [List.getLast?_concat] at found
    cases found
    simp only [List.mem_cons, List.not_mem_nil, or_false] at h
    rcases h with rfl | rfl | rfl | rfl
    · exact ⟨';', by decide, rfl, rfl⟩
    · exact ⟨',', by decide, rfl, rfl⟩
    · exact ⟨'\x7b', by decide, rfl, rfl⟩
    · exact ⟨'\x7d', by decide, rfl, rfl⟩
  obtain ⟨event, unread⟩ := t
  cases event with
  | marker _ | comment _ => exact nofun
  | _ => exact ended (by decide) _

/-- The raw text of a custom property is that of the tokens it was read from, less the blanks at the
end. -/
def Raw (t : Traced) : Prop :=
  ∀ name raw, t.event = .customProperty name raw → raw = Text.trimEnd (source t.rawTokens)

/-- The text of an event is that of the tokens it is written as. -/
theorem written_eq_source {t : Traced}
    (raw : ∀ name raw, t.event = .customProperty name raw → raw = source (trimEnd t.rawTokens)) :
    t.event.written = source t.written := by
  obtain ⟨event, unread⟩ := t
  cases event with
  | customProperty name text =>
      simp only [written, body, Event.closing, source_append, source_cons, ← raw name text rfl]
      simp [Event.written, Event.pieces, source, nameToken, semicolon, colon]
  | _ =>
      simp [written, body, Event.closing, Event.written, Event.pieces, source, nameToken,
        List.flatMap_def, semicolon, colon, comma, leftBrace, rightBrace]

theorem length_written {t : Traced} (raw : t.Raw)
    (spaces : ∀ token ∈ t.rawTokens, token.isWhitespace = true → ∀ c ∈ token.text, Text.isBlank c) :
    t.event.written.length ≤ (source t.written).length := by
  obtain ⟨event, unread⟩ := t
  cases event with
  | customProperty name text =>
      have shorter := length_trimEnd_source spaces
      rw [← raw name text rfl] at shorter
      simp only [written, body, Event.closing, Event.written, Event.pieces, source_append]
      simp [source, nameToken, semicolon, colon] at shorter ⊢
      exact shorter
  | _ => exact Nat.le_of_eq (congrArg List.length (written_eq_source (by simp)))

theorem length_flatMap_written {ts : List Traced}
    (longer : ∀ t ∈ ts, t.event.written.length ≤ (source t.written).length) :
    (ts.flatMap (·.event.written)).length ≤ (source (ts.flatMap written)).length := by
  induction ts with
  | nil => exact Nat.le_refl 0
  | cons t ts ih =>
      obtain ⟨first, others⟩ := List.forall_mem_cons.mp longer
      rw [List.flatMap_cons, List.flatMap_cons, source_append, List.length_append,
        List.length_append]
      exact Nat.add_le_add first (ih others)

/-- Written events are cut into their tokens exactly when each of them is by itself. -/
theorem lexes_written_iff {ts : List Traced}
    (longer : ∀ t ∈ ts, t.event.written.length ≤ (source t.written).length) :
    Lexes (ts.flatMap (·.event.written)) (ts.flatMap written) ↔ ∀ t ∈ ts, t.Kept := by
  induction ts with
  | nil => simpa using Lexes.nil
  | cons t ts ih =>
      obtain ⟨first, others⟩ := List.forall_mem_cons.mp longer
      rw [List.flatMap_cons, List.flatMap_cons, List.forall_mem_cons, ← ih others]
      constructor
      · intro lexed
        -- No event is written with more text than its tokens have, so none has less.
        have covers : source t.written = t.event.written := by
          have rest := length_flatMap_written others
          have whole := lexed.source
          rw [source_append] at whole
          have size := congrArg List.length whole
          simp only [List.length_append] at size
          exact List.append_inj_left whole (by omega)
        obtain ⟨cut, rest⟩ := (lexes_append_iff t.written_ended covers).mp lexed
        exact ⟨tokens_eq_ok_iff.mpr cut, rest⟩
      · intro ⟨kept, rest⟩
        have cut := tokens_eq_ok_iff.mp kept
        exact (lexes_append_iff t.written_ended cut.source).mpr ⟨cut, rest⟩

end Parser.Traced

namespace Parser

theorem mem_selectorEvents {groups : List (List Token)} {e : Event}
    (h : e ∈ selectorEvents groups) :
    ∃ group ∈ groups, e = .selectorGroup group ∨ e = .beginRuleset group := by
  induction groups with
  | nil => cases h
  | cons group rest ih =>
      cases rest with
      | nil => exact ⟨group, List.mem_cons_self, .inr (List.mem_singleton.mp h)⟩
      | cons next rest =>
          obtain rfl | later := List.mem_cons.mp h
          · exact ⟨group, List.mem_cons_self, .inl rfl⟩
          · obtain ⟨found, inside, same⟩ := ih later
            exact ⟨found, List.mem_cons_of_mem _ inside, same⟩

theorem Reads.raw {blocks : List Block} {unread : List Token} {events : List Event} {next : State}
    (h : Reads blocks unread events next) {e : Event} (inside : e ∈ events) :
    (Traced.mk e unread).Raw := by
  intro name raw same
  have same : e = .customProperty name raw := same
  subst same
  cases h with
  | ended | closed =>
      simp only [List.mem_singleton, Block.ended] at inside
      split at inside <;> cases inside
  | comment | marker _ | atRule _ | beginAtRule _ => simp at inside
  | selectors _ _ _ =>
      obtain ⟨_, _, same | same⟩ := mem_selectorEvents inside <;> cases same
  | @declaration _ name' rest colon more _ found _ =>
      rw [List.mem_singleton, declarationEvent] at inside
      split at inside <;> cases inside
      simp [Traced.rawTokens, found]

theorem Traced.rawTokens_subset (t : Traced) : t.rawTokens ⊆ t.unread := by
  have scanned := Item.scan_scanned ((skipTrivial false t.unread.tail).drop 1)
  have first : t.rawTokens ⊆ (skipTrivial false t.unread.tail).drop 1 :=
    fun token inside => scanned.cover ▸ List.mem_append_left _ inside
  have rest : (skipTrivial false t.unread.tail).drop 1 <:+ t.unread :=
    (List.drop_suffix _ _).trans ((skipTrivial_suffix _ _).trans (List.tail_suffix _))
  exact List.Subset.trans first rest.subset

theorem isBlank_of_isSpace {c : Char} (h : isSpace c = true) : Text.isBlank c = true := by
  simp only [isSpace, Bool.or_eq_true, beq_iff_eq] at h
  rcases h with (((rfl | rfl) | rfl) | rfl) | rfl <;> rfl

theorem length_written_of_trace {source : Text} {tokens : List Token}
    (cut : Lexer.tokens source = .ok tokens) {inline : Bool} :
    ∀ t ∈ trace inline ⟨tokens, []⟩, t.event.written.length ≤ (Token.source t.written).length := by
  intro t inside
  obtain ⟨unread, _, _, _, reads, read⟩ := mem_trace inside
  refine t.length_written (reads.raw read) fun token raw white c found => ?_
  have here := unread.subset (t.rawTokens_subset raw)
  exact isBlank_of_isSpace ((tokens_eq_ok_iff.mp cut).whitespace token here white c found)

end Parser
end UtilityCss
