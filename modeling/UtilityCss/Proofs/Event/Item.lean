import UtilityCss.Event.Item

/-!
What an item is made of. Its tokens and the rest after them are the tokens it was scanned from,
and outside of groups it meets no semicolon or brace. Scanning and splitting go by group depth,
which white space and comments do not change, so what they find in a source they find again in
the values that are kept of it.
-/
namespace UtilityCss

namespace Token

/-- The tokens that are neither white space nor comments. -/
def solid (tokens : List Token) : List Token :=
  tokens.filter (!·.kind.isTrivia)

theorem solid_append (xs ys : List Token) : solid (xs ++ ys) = solid xs ++ solid ys :=
  List.filter_append ..

theorem solid_cons (token : Token) (rest : List Token) :
    solid (token :: rest) = solid [token] ++ solid rest :=
  solid_append [token] rest

theorem solid_reverse (tokens : List Token) : solid tokens.reverse = (solid tokens).reverse :=
  List.filter_reverse

theorem solid_dropWhile {p : Token → Bool} (trivia : ∀ token, p token = true → token.kind.isTrivia)
    (tokens : List Token) : solid (tokens.dropWhile p) = solid tokens := by
  induction tokens with
  | nil => rfl
  | cons token rest ih =>
      rw [List.dropWhile_cons]
      split
      next dropped => simpa [solid, trivia token dropped] using ih
      next => rfl

theorem isTrivia_of_isWhitespace {token : Token} (h : token.isWhitespace = true) :
    token.kind.isTrivia = true := by
  rw [isWhitespace, beq_iff_eq] at h
  rw [h]
  rfl

theorem solid_trimWhitespace (tokens : List Token) :
    solid (trimWhitespace tokens) = solid tokens := by
  have trivia (token : Token) : token.isWhitespace = true → token.kind.isTrivia = true :=
    isTrivia_of_isWhitespace
  rw [trimWhitespace, solid_reverse, solid_dropWhile trivia, solid_reverse, List.reverse_reverse,
    solid_dropWhile trivia]

end Token

namespace Parser
open Token

theorem solid_addValue (found : List Token) (token : Token) :
    solid (addValue found token) = solid [token] ++ solid found := by
  simp only [addValue]
  split
  next comment => simp [solid, comment, Kind.isTrivia]
  split
  next space =>
    have trivia := isTrivia_of_isWhitespace (Bool.and_eq_true_iff.mp space).1
    simp [solid, trivia]
  next => exact solid_append [token] found

theorem solid_foldl_addValue (tokens found : List Token) :
    solid (tokens.foldl addValue found) = (solid tokens).reverse ++ solid found := by
  induction tokens generalizing found with
  | nil => rfl
  | cons token rest ih =>
      rw [List.foldl_cons, ih, solid_addValue, solid_cons token rest,
        List.reverse_append, List.append_assoc, ← solid_reverse [token], List.reverse_singleton]

theorem solid_values (tokens : List Token) : solid (values tokens) = solid tokens := by
  rw [values, solid_reverse, solid_foldl_addValue, List.reverse_append, List.reverse_reverse]
  rfl

theorem solid_trimmedValues (tokens : List Token) :
    solid (trimmedValues tokens) = solid tokens := by
  rw [trimmedValues, solid_trimWhitespace, solid_values]

theorem solid_atRuleValues (tokens : List Token) : solid (atRuleValues tokens) = solid tokens := by
  rw [atRuleValues, solid_reverse, solid_dropWhile fun _ => isTrivia_of_isWhitespace,
    ← solid_reverse, ← values, solid_values]

/-- No token that stands outside of all groups is of a barred kind, with the given number of groups
open in front. -/
def Clear (barred : Kind → Bool) : Nat → List Token → Prop
  | _, [] => True
  | depth, token :: rest =>
    (depth = 0 → barred token.kind = false) ∧ Clear barred (token.kind.nesting depth) rest

instance decidableClear (barred : Kind → Bool) :
    ∀ depth tokens, Decidable (Clear barred depth tokens)
  | _, [] => .isTrue trivial
  | depth, token :: rest =>
    have := decidableClear barred (token.kind.nesting depth) rest
    inferInstanceAs (Decidable ((depth = 0 → barred token.kind = false) ∧ Clear barred _ rest))

theorem clear_mono {barred fewer : Kind → Bool}
    (h : ∀ kind, barred kind = false → fewer kind = false) {depth : Nat} {tokens : List Token}
    (clear : Clear barred depth tokens) : Clear fewer depth tokens := by
  induction tokens generalizing depth with
  | nil => trivial
  | cons token rest ih => exact ⟨fun top => h _ (clear.1 top), ih clear.2⟩

/-- How many groups are open after tokens. -/
def depthAfter (depth : Nat) (tokens : List Token) : Nat :=
  tokens.foldl (fun depth token => token.kind.nesting depth) depth

theorem depthAfter_append (depth : Nat) (xs ys : List Token) :
    depthAfter depth (xs ++ ys) = depthAfter (depthAfter depth xs) ys :=
  List.foldl_append

theorem clear_append {barred : Kind → Bool} {depth : Nat} {xs ys : List Token} :
    Clear barred depth (xs ++ ys) ↔
      Clear barred depth xs ∧ Clear barred (depthAfter depth xs) ys := by
  induction xs generalizing depth with
  | nil => simp [Clear, depthAfter]
  | cons token rest ih => simp [Clear, depthAfter, ih, and_assoc]

theorem nesting_trivia {kind : Kind} (h : kind.isTrivia = true) (depth : Nat) :
    kind.nesting depth = depth := by
  cases kind <;> first | rfl | cases h

theorem clear_solid {barred : Kind → Bool}
    (admits : ∀ kind, kind.isTrivia = true → barred kind = false) {depth : Nat}
    {tokens : List Token} : Clear barred depth (solid tokens) ↔ Clear barred depth tokens := by
  induction tokens generalizing depth with
  | nil => rfl
  | cons token rest ih =>
      cases trivia : token.kind.isTrivia with
      | true =>
          have dropped : solid (token :: rest) = solid rest := by simp [solid, trivia]
          simp [dropped, Clear, admits _ trivia, nesting_trivia trivia, ih]
      | false =>
          have kept : solid (token :: rest) = token :: solid rest := by simp [solid, trivia]
          rw [kept, Clear, Clear, ih]

theorem depthAfter_solid (depth : Nat) (tokens : List Token) :
    depthAfter depth (solid tokens) = depthAfter depth tokens := by
  induction tokens generalizing depth with
  | nil => rfl
  | cons token rest ih =>
      cases trivia : token.kind.isTrivia with
      | true =>
          have dropped : solid (token :: rest) = solid rest := by simp [solid, trivia]
          rw [dropped, ih, depthAfter, depthAfter, List.foldl_cons, nesting_trivia trivia]
      | false =>
          have kept : solid (token :: rest) = token :: solid rest := by simp [solid, trivia]
          rw [kept, depthAfter, List.foldl_cons]
          exact ih _

theorem Stop.ofKind?_eq_some {kind : Kind} {stop : Stop} (h : Stop.ofKind? kind = some stop) :
    kind = .semicolon ∧ stop = .semicolon ∨ kind = .leftBrace ∧ stop = .leftBrace ∨
      kind = .rightBrace ∧ stop = .rightBrace := by
  cases kind <;> simp_all [Stop.ofKind?]

/-- The kinds that end an item. -/
def isStop (kind : Kind) : Bool :=
  (Stop.ofKind? kind).isSome

theorem isStop_trivia {kind : Kind} (h : kind.isTrivia = true) : isStop kind = false := by
  cases kind <;> first | rfl | cases h

namespace Item

theorem scanFrom_cons {depth : Nat} {found : List Token} {token : Token} {rest : List Token}
    (passes : depth = 0 → isStop token.kind = false) :
    scanFrom depth found (token :: rest) =
      scanFrom (token.kind.nesting depth) (token :: found) rest := by
  rw [scanFrom]
  split
  next stop found =>
    split at found
    next top => simp [isStop, found] at passes; exact absurd top passes
    next => cases found
  next => rfl

theorem scanFrom_append {depth : Nat} {found xs : List Token} (clear : Clear isStop depth xs)
    (ys : List Token) :
    scanFrom depth found (xs ++ ys) = scanFrom (depthAfter depth xs) (xs.reverse ++ found) ys := by
  induction xs generalizing depth found with
  | nil => rfl
  | cons token rest ih =>
      rw [List.cons_append, scanFrom_cons clear.1, ih clear.2]
      simp [depthAfter]

/-- An item ends at the first semicolon or brace after tokens that have none outside of groups. -/
theorem scan_append_stop {xs rest : List Token} {token : Token} {stop : Stop}
    (clear : Clear isStop 0 xs) (closed : depthAfter 0 xs = 0)
    (ends : Stop.ofKind? token.kind = some stop) :
    scan (xs ++ token :: rest) = ⟨xs, stop, token :: rest⟩ := by
  rw [scan, scanFrom_append clear, closed]
  simp [scanFrom, ends]

/-- What a scan has done when it is through. -/
structure Scanned (tokens : List Token) (item : Item) : Prop where
  cover : item.tokens ++ item.rest = tokens
  clear : Clear isStop 0 item.tokens
  ended : item.stop = .ending ∧ item.rest = [] ∨
    depthAfter 0 item.tokens = 0 ∧
      ∃ token more, item.rest = token :: more ∧ Stop.ofKind? token.kind = some item.stop

theorem scanFrom_scanned {depth : Nat} {found tokens : List Token}
    (clear : Clear isStop 0 found.reverse) (reached : depthAfter 0 found.reverse = depth) :
    Scanned (found.reverse ++ tokens) (scanFrom depth found tokens) := by
  induction tokens generalizing depth found with
  | nil => exact ⟨rfl, clear, .inl ⟨rfl, rfl⟩⟩
  | cons token rest ih =>
      by_cases stops : depth = 0 ∧ isStop token.kind = true
      · obtain ⟨stop, ends⟩ := Option.isSome_iff_exists.mp stops.2
        have item :
            scanFrom depth found (token :: rest) = ⟨found.reverse, stop, token :: rest⟩ := by
          simp [scanFrom, stops.1, ends]
        rw [item]
        exact ⟨rfl, clear, .inr ⟨reached.trans stops.1, token, rest, rfl, ends⟩⟩
      · have passes : depth = 0 → isStop token.kind = false := by simpa using stops
        rw [scanFrom_cons passes]
        have clear' : Clear isStop 0 (token :: found).reverse := by
          rw [List.reverse_cons, clear_append, reached]
          exact ⟨clear, passes, trivial⟩
        have reached' : depthAfter 0 (token :: found).reverse = token.kind.nesting depth := by
          rw [List.reverse_cons, depthAfter_append, reached]
          rfl
        simpa using ih clear' reached'

theorem scan_scanned (tokens : List Token) : Scanned tokens (scan tokens) :=
  @scanFrom_scanned 0 [] tokens trivial rfl

end Item
end Parser
end UtilityCss
