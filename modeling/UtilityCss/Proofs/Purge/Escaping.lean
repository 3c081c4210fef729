import UtilityCss.Proofs.Event.Run
import UtilityCss.Proofs.Event.Tokens
import UtilityCss.Proofs.Purge.Recording
import UtilityCss.Proofs.Token.Boundary

/-!
Class names as selectors spell them. Any character can stand behind a backslash, and some have to. A
name is read as one token in whatever way it is spelled, and its purge key is the name again.
-/
namespace UtilityCss
open UtilityCss.Lexer UtilityCss.Parser UtilityCss.Token

/-- ASCII characters that are part of a name only behind a backslash. -/
def needsEscape (c : Char) : Bool :=
  decide (c.toNat < 0x80) && !(c.isAlphanum || c == '_' || c == '-')

/-- The spellings of a name, or of what is left of it. A line break has none. -/
inductive Spelling : Text → Text → Prop
  | nil : Spelling [] []
  | plain {c name spelled} : needsEscape c = false → Spelling name spelled →
      Spelling (c :: name) (c :: spelled)
  | escaped {c name spelled} : isNewline c = false → Spelling name spelled →
      Spelling (c :: name) ('\\' :: c :: spelled)

/-- A digit or a dash at the begin of a name is escaped. -/
def StartsPlain (spelled : Text) : Prop :=
  ∀ c ∈ spelled.head?, c.isDigit = false ∧ c ≠ '-'

theorem ne_backslash {c : Char} (self : needsEscape c = false) : c ≠ '\\' := by
  rintro rfl
  cases self

namespace Lexer

theorem isNameChar_eq (c : Char) : isNameChar c = !needsEscape c := by
  have sides : decide (0x80 ≤ c.toNat) = !decide (c.toNat < 0x80) := by
    rw [← decide_not, decide_eq_decide, Nat.not_lt]
  rw [isNameChar, isNameStart, needsEscape, Char.isAlphanum, sides]
  cases c.isAlpha <;> cases c.isDigit <;> cases c == '_' <;> simp [Bool.or_comm]

theorem isNameStart_of_plain {c : Char} (self : needsEscape c = false)
    (starts : c.isDigit = false ∧ c ≠ '-') : isNameStart c = true := by
  have char : isNameChar c = true := by
    rw [isNameChar_eq, self]
    rfl
  simpa [isNameChar, starts] using char

theorem mantissaLength_eq_zero {c : Char} (sign : isSign c = false) (digit : c.isDigit = false)
    (dot : c ≠ '.') (rest : Text) : mantissaLength (c :: rest) = 0 := by
  have none : digitsLength (c :: rest) = 0 := by simp [digitsLength, runLength, digit]
  simp [mantissaLength, sign, unsignedLength, none, dot]

/-- A dot that no digit follows is no decimal point. -/
theorem lexeme_dot {rest : Text} (digit : ∀ c ∈ rest.head?, c.isDigit = false) :
    lexeme '.' rest = .delims 0 := by
  have none : digitsLength rest = 0 := @runLength_append_of_head _ [] rest digit
  have whole : digitsLength ('.' :: rest) = 0 := rfl
  have mantissa : mantissaLength ('.' :: rest) = 0 := by
    simp [mantissaLength, isSign, unsignedLength, whole, none]
  have ident : identLength ('.' :: rest) = 0 := identLength_plain (by simp)
  rw [lexeme_other rfl (by decide) (by decide) (by simp) (by simp) (by simp), otherLexeme, mantissa,
    ident]
  rfl

theorem Lexes.of_lexeme {c : Char} {rest : Text} {l : Lexeme} {ts : List Token}
    (h : lexeme c rest = l) (closed : l ≠ .unclosed) (more : Lexes (rest.drop l.more) ts) :
    Lexes (c :: rest) (l.tokens c rest ++ ts) := by
  subst h
  exact .cons closed more

/-- The characters besides punctuation at which tokens other than names begin. -/
def otherStarts : List Char :=
  [' ', '\t', '\n', '\r', '\x0c', '@', '#', '/', '<', '\x22', '\x27', '+', '-', '.']

end Lexer

namespace Spelling
variable {name spelled : Text} (spelling : Spelling name spelled)
include spelling

theorem ne_nil (filled : name ≠ []) : spelled ≠ [] := by
  cases spelling with
  | nil => exact absurd rfl filled
  | plain _ _ | escaped _ _ => exact List.cons_ne_nil _ _

/-- Taking the escapes away gives the name back. -/
theorem unescapeFrom_eq (found : Text) :
    PurgeKey.unescapeFrom found spelled = found.reverse ++ name := by
  induction spelling generalizing found with
  | nil => rw [PurgeKey.unescapeFrom, List.append_nil]
  | @plain c name spelled self _ ih =>
      have kept : PurgeKey.unescapeFrom found (c :: spelled) =
          PurgeKey.unescapeFrom (c :: found) spelled := by
        cases spelled <;> simp [PurgeKey.unescapeFrom, ne_backslash self]
      rw [kept, ih, List.reverse_cons, List.append_assoc, List.singleton_append]
  | escaped line _ ih =>
      rw [PurgeKey.unescapeFrom, ih, List.reverse_cons, List.append_assoc, List.singleton_append]

/-- Names are measured with their escapes, up to a character that ends every name. -/
theorem nameLengthFrom_append {after : Text} (stopped : Stopped after) (n : Nat) :
    nameLengthFrom n (spelled ++ after) = n + spelled.length := by
  induction spelling generalizing n with
  | nil => exact nameLengthFrom_stopped stopped n
  | plain self _ ih =>
      rw [List.cons_append, nameLengthFrom_plain _ (ne_backslash self), isNameChar_eq, self, ih,
        List.length_cons]
      exact Nat.add_right_comm n 1 _
  | escaped line _ ih =>
      rw [List.cons_append, List.cons_append, nameLengthFrom, line, ih, List.length_cons,
        List.length_cons]
      exact Nat.add_right_comm n 2 _

section Starts
variable (starts : StartsPlain spelled)
include starts

theorem startsName_append (filled : spelled ≠ []) (after : Text) :
    startsName (spelled ++ after) = true := by
  cases spelling with
  | nil => exact absurd rfl filled
  | @plain c name spelled self _ =>
      have start := isNameStart_of_plain self (starts c rfl)
      cases rest : spelled ++ after <;> simp [startsName, ne_backslash self, start, rest]
  | escaped line _ => simp [startsName, line]

theorem head_cases {c : Char} (first : c ∈ spelled.head?) : c = '\\' ∨ isNameStart c = true := by
  cases spelling with
  | nil => cases first
  | plain self _ =>
      cases first
      exact .inr (isNameStart_of_plain self (starts c rfl))
  | escaped _ _ =>
      cases first
      exact .inl rfl

theorem head_not_mem {c : Char} (first : c ∈ spelled.head?) {others : List Char}
    (none : others.any (fun d => d == '\\' || isNameStart d) = false) : c ∉ others := by
  intro inside
  have neither := eq_false_of_mem none inside
  rw [Bool.or_eq_false_iff, beq_eq_false_iff_ne] at neither
  obtain same | start := spelling.head_cases starts first
  · exact neither.1 same
  · cases start.symm.trans neither.2

/-- What begins like a name is read as one up to the brace: nothing else begins there, and no
parenthesis follows that would make it a function. -/
theorem lexeme_eq {c : Char} {rest : Text} (whole : spelled = c :: rest) (after : Text) :
    lexeme c (rest ++ '\x7b' :: after) = .token .ident rest.length := by
  have named := spelling.startsName_append starts (by simp [whole]) ('\x7b' :: after)
  have length := spelling.nameLengthFrom_append (@stopped_cons '\x7b' (by decide) after) 0
  have first : c ∈ spelled.head? := by
    rw [whole]
    rfl
  have mark : c ∉ punctuation := spelling.head_not_mem starts first (by decide)
  have apart : c ∉ otherStarts := spelling.head_not_mem starts first (by decide)
  have differs {d : Char} (other : d ∈ otherStarts) : c ≠ d := fun same => apart (same ▸ other)
  have unlike {d : Char} {w : Text} (other : d ∈ otherStarts) :
      ¬d :: w <+: c :: (rest ++ '\x7b' :: after) :=
    fun ⟨_, same⟩ => differs other (List.cons.inj same).1.symm
  simp only [otherStarts, List.mem_cons, List.not_mem_nil, or_false, not_or] at apart
  subst whole
  rw [List.cons_append] at named length
  have ident : identLength (c :: (rest ++ '\x7b' :: after)) = rest.length + 1 := by
    rw [identLength_plain (by simp [apart]), if_pos named, nameLength, length, List.length_cons]
    exact Nat.zero_add _
  have mantissa : mantissaLength (c :: (rest ++ '\x7b' :: after)) = 0 :=
    mantissaLength_eq_zero (by simp [isSign, apart]) (starts c rfl).1 (differs (by decide)) _
  rw [lexeme_other (by simp [isSpace, apart]) mark ⟨differs (by decide), differs (by decide)⟩
    (unlike (by decide)) (unlike (by decide)) (unlike (by decide)), otherLexeme, mantissa, ident]
  simp [word, apart]

theorem lexes (filled : name ≠ []) :
    Lexes ('.' :: spelled ++ ['\x7b', '\x7d'])
      [delim '.', ⟨.ident, spelled⟩, leftBrace, rightBrace] := by
  obtain ⟨c, rest, rfl⟩ := List.exists_cons_of_ne_nil (spelling.ne_nil filled)
  have block : Lexes ['\x7b', '\x7d'] [leftBrace, rightBrace] :=
    (lexes_mark_iff rfl).mpr ((lexes_mark_iff rfl).mpr .nil)
  have named : Lexes (c :: (rest ++ ['\x7b', '\x7d']))
      [⟨.ident, c :: rest⟩, leftBrace, rightBrace] := by
    have token := spelling.lexeme_eq starts rfl ['\x7d']
    have := Lexes.of_lexeme token (by simp) (by simpa [Lexeme.more] using block)
    simpa [Lexeme.tokens] using this
  have dot : lexeme '.' (c :: (rest ++ ['\x7b', '\x7d'])) = .delims 0 :=
    lexeme_dot fun d first => (starts d first).1
  exact .of_lexeme dot (by simp) named

end Starts
end Spelling

theorem Parser.run_emptyRule (name : Text) :
    Run false ⟨[delim '.', ⟨.ident, name⟩, leftBrace, rightBrace], []⟩
      [.beginRuleset [delim '.', ⟨.ident, name⟩], .endRuleset] none := by
  have opens : step false ⟨[delim '.', ⟨.ident, name⟩, leftBrace, rightBrace], []⟩ =
      .yield [.beginRuleset [delim '.', ⟨.ident, name⟩]] ⟨[rightBrace], [.ruleset]⟩ := rfl
  have closes : step false ⟨[rightBrace], [.ruleset]⟩ = .yield [.endRuleset] ⟨[], []⟩ := rfl
  have ends : step false ⟨[], []⟩ = .done := rfl
  exact .yield opens (.yield closes (.done ends))

namespace PurgeKey

theorem ofSelector?_class {name spelled : Text} (filled : name ≠ [])
    (spelling : Spelling name spelled) :
    ofSelector? [delim '.', ⟨.ident, spelled⟩] = some (String.ofList name) := by
  have key : ofSelector? [delim '.', ⟨.ident, spelled⟩] =
      if (unescape spelled).isEmpty then none else some (String.ofList (unescape spelled)) := rfl
  rw [key, unescape, spelling.unescapeFrom_eq, List.reverse_nil, List.nil_append,
    if_neg (by simpa using filled)]

/-- Whatever way a class name is spelled, the key of a rule that it selects is the name. -/
theorem ofStyles_spelling (source : String) {name spelled : Text} (filled : name ≠ [])
    (spelling : Spelling name spelled) (starts : StartsPlain spelled) :
    ∃ keys, ofStyles source ('.' :: spelled ++ ['\x7b', '\x7d']) = .ok keys ∧
      ∀ key, key ∈ keys ↔ key = String.ofList name := by
  have cut := tokens_eq_ok_iff.mpr (spelling.lexes starts filled)
  obtain ⟨stop, run, clean⟩ := Reading.ofText_run cut false
  obtain ⟨events, rfl⟩ := run.unique (run_emptyRule spelled)
  refine ⟨ofEvents (Reading.ofText ('.' :: spelled ++ ['\x7b', '\x7d']) false).events, ?_, ?_⟩
  · rw [ofStyles, clean.mpr rfl]
  · intro key
    rw [mem_ofEvents, events]
    simp [ofEvent?, ofSelector?_class filled spelling, eq_comm]

/-- A name with a digit first, a colon, a backslash and a letter that needs no escape but has
one. -/
theorem ofStyles_spelling_digit :
    ∃ keys, ofStyles "utilities"
        ('.' :: ['\\', '2', '\\', ':', 'é', '\\', '\\', '\\', 'p'] ++ ['\x7b', '\x7d']) = .ok keys ∧
      ∀ key, key ∈ keys ↔ key = String.ofList ['2', ':', 'é', '\\', 'p'] :=
  ofStyles_spelling "utilities" (by simp)
    (.escaped rfl (.escaped rfl (.plain rfl (.escaped rfl (.escaped rfl .nil)))))
    (by simp [StartsPlain])

end PurgeKey
end UtilityCss
