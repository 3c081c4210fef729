import UtilityCss.Proofs.Event.Item
import UtilityCss.Proofs.Event.Nesting

/-!
Events together with where they come from. `Reads` says once what an item can read as and what is
left after it, and a trace keeps with each event of a run the tokens that were unread when its item
began.
-/
namespace UtilityCss
namespace Parser

/-- What is left after an item. The semicolon or opening brace that ends it goes with it, a closing
brace does not. -/
def Item.after (item : Item) : List Token :=
  match item.stop with
  | .semicolon | .leftBrace => item.rest.drop 1
  | .rightBrace | .ending => item.rest

theorem Item.rest_suffix (tokens : List Token) : (scan tokens).rest <:+ tokens :=
  ⟨_, (scan_scanned tokens).cover⟩

theorem Item.after_suffix (tokens : List Token) : (scan tokens).after <:+ tokens := by
  have inRest : (scan tokens).after <:+ (scan tokens).rest := by
    rw [after]
    split <;> first | exact List.drop_suffix _ _ | exact List.suffix_refl _
  exact inRest.trans (rest_suffix tokens)

/-- What the next item of unread tokens reads as, where the given blocks are open, and the state it
leaves. -/
inductive Reads : List Block → List Token → List Event → State → Prop
  | ended {block blocks} : Reads (block :: blocks) [] [block.ended] ⟨[], blocks⟩
  | closed {block blocks text rest} :
      Reads (block :: blocks) (⟨.rightBrace, text⟩ :: rest) [block.ended] ⟨rest, blocks⟩
  | comment {blocks text rest} :
      Reads blocks (⟨.comment, text⟩ :: rest) [.comment text] ⟨rest, blocks⟩
  | marker {blocks kind text rest} : kind = .cdo ∨ kind = .cdc →
      Reads blocks (⟨kind, text⟩ :: rest) [.marker text] ⟨rest, blocks⟩
  | atRule {blocks name rest} : (Item.scan rest).stop ≠ .leftBrace →
      Reads blocks (⟨.atKeyword, name⟩ :: rest)
        [.atRule name (atRuleValues (Item.scan rest).tokens)] ⟨(Item.scan rest).after, blocks⟩
  | beginAtRule {blocks name rest} : (Item.scan rest).stop = .leftBrace →
      Reads blocks (⟨.atKeyword, name⟩ :: rest)
        [.beginAtRule name (atRuleValues (Item.scan rest).tokens)]
        ⟨(Item.scan rest).after, .atRule :: blocks⟩
  | selectors {blocks unread groups} : (Item.scan unread).stop = .leftBrace →
      (splitGroups (Item.scan unread).tokens).map trimmedValues = groups →
      groups.any (·.isEmpty) = false →
      Reads blocks unread (selectorEvents groups) ⟨(Item.scan unread).after, .ruleset :: blocks⟩
  | declaration {blocks name rest colon more} : name.kind ≠ .atKeyword →
      skipTrivial false rest = ⟨.colon, colon⟩ :: more → (Item.scan more).stop ≠ .leftBrace →
      Reads blocks (name :: rest) [declarationEvent name (Item.scan more).tokens]
        ⟨(Item.scan more).after, blocks⟩

theorem skipTrivial_suffix (semicolons : Bool) (tokens : List Token) :
    skipTrivial semicolons tokens <:+ tokens :=
  List.dropWhile_suffix _

/-- What stands behind the first token that is not skipped. -/
theorem suffix_of_skipTrivial {semicolons : Bool} {tokens more : List Token} {token : Token}
    (found : skipTrivial semicolons tokens = token :: more) : more <:+ tokens :=
  (List.suffix_cons token more).trans (found ▸ skipTrivial_suffix semicolons tokens)

theorem Reads.rest_suffix {blocks : List Block} {unread : List Token} {events : List Event}
    {next : State} (h : Reads blocks unread events next) : next.rest <:+ unread := by
  cases h with
  | ended => exact List.nil_suffix
  | closed | comment | marker _ => exact List.suffix_cons _ _
  | atRule _ | beginAtRule _ => exact (Item.after_suffix _).trans (List.suffix_cons _ _)
  | selectors _ _ _ => exact Item.after_suffix _
  | @declaration _ name rest _ more _ found _ =>
      have colonRead := (suffix_of_skipTrivial found).trans (List.suffix_cons name rest)
      exact (Item.after_suffix more).trans colonRead

theorem atRule_reads {text : Text} {rest : List Token} {blocks : List Block} {events : List Event}
    {next : State} (h : atRule ⟨.atKeyword, text⟩ rest blocks = .yield events next) :
    Reads blocks (⟨.atKeyword, text⟩ :: rest) events next := by
  have blockRead := @Reads.beginAtRule blocks text rest
  have statementRead := @Reads.atRule blocks text rest
  simp only [atRule] at h
  split at h
  all_goals
    next stop =>
      cases h
      simp_all [Item.after]

theorem prelude_reads {unread : List Token} {blocks : List Block} {events : List Event}
    {next : State} (h : prelude unread blocks = .yield events next) :
    Reads blocks unread events next := by
  simp only [prelude] at h
  split at h
  · cases h
  next stop =>
    have stop : (Item.scan unread).stop = .leftBrace := by simpa using stop
    split at h
    · cases h
    next full =>
      cases h
      have after : (Item.scan unread).after = (Item.scan unread).rest.drop 1 := by
        simp [Item.after, stop]
      rw [← after]
      exact .selectors stop rfl (by simpa using full)

theorem declaration_reads {name : Token} {rest : List Token} {blocks : List Block}
    {events : List Event} {next : State} (named : name.kind ≠ .atKeyword)
    (h : declaration name rest blocks = .yield events next) :
    Reads blocks (name :: rest) events next := by
  simp only [declaration] at h
  split at h
  next colon more found =>
    have read := @Reads.declaration blocks name rest colon more named found
    split at h
    · cases h
    all_goals
      next stop =>
        cases h
        simp_all [Item.after]
  · cases h

theorem itemStep_reads {inline : Bool} {token : Token} {rest : List Token} {blocks : List Block}
    {events : List Event} {next : State}
    (h : itemStep inline token rest blocks = .yield events next) :
    Reads blocks (token :: rest) events next := by
  obtain ⟨kind, text⟩ := token
  simp only [itemStep] at h
  split at h
  case h_1 =>
    cases h
    exact .comment
  case h_2 =>
    cases h
    exact .marker (.inl rfl)
  case h_3 =>
    cases h
    exact .marker (.inr rfl)
  case h_4 =>
    cases blocks with
    | nil => cases h
    | cons block blocks =>
        cases h
        exact .closed
  case h_5 => exact atRule_reads h
  case h_6 named =>
    split at h
    · exact declaration_reads named h
    · exact prelude_reads h

/-- The tokens from the next item of a state on. -/
def State.unread (inline : Bool) (s : State) : List Token :=
  skipTrivial (onlyDeclarations inline s.blocks) s.rest

theorem step_reads {inline : Bool} {s next : State} {events : List Event}
    (h : step inline s = .yield events next) : Reads s.blocks (s.unread inline) events next := by
  rw [step, ← State.unread] at h
  split at h
  next unread =>
    rw [unread]
    cases hb : s.blocks with
    | nil => simp [hb, closeAll] at h
    | cons block blocks =>
        rw [hb] at h
        cases h
        exact .ended
  next unread =>
    rw [unread]
    exact itemStep_reads h

theorem State.unread_suffix (inline : Bool) (s : State) : s.unread inline <:+ s.rest :=
  skipTrivial_suffix _ _

theorem unread_of_done {inline : Bool} {s : State} (h : step inline s = .done) :
    s.unread inline = [] := by
  rw [step, ← State.unread] at h
  split at h
  next unread => exact unread
  next => exact absurd h (itemStep_ne_done _ _ _ _)

/-- An event with the tokens that were unread when its item began. -/
structure Traced where
  event : Event
  unread : List Token
  deriving DecidableEq

def trace (inline : Bool) (s : State) : List Traced :=
  match _h : step inline s with
  | .done | .stuck _ _ => []
  | .yield events next => events.map (⟨·, s.unread inline⟩) ++ trace inline next
termination_by s.size
decreasing_by exact step_size (by assumption)

/-- Every event of a trace is read from unread tokens, which have every property that skipping and
reading preserve. -/
theorem trace_invariant {inline : Bool} {P : List Token → Prop}
    (skip : ∀ semicolons tokens, P tokens → P (skipTrivial semicolons tokens))
    (read : ∀ blocks unread events next, Reads blocks unread events next → P unread → P next.rest)
    {s : State} (start : P s.rest) {t : Traced} (h : t ∈ trace inline s) :
    P t.unread ∧ ∃ blocks events next, Reads blocks t.unread events next ∧ t.event ∈ events := by
  induction s using trace.induct inline with
  | case1 s done =>
      rw [trace, done] at h
      cases h
  | case2 s fault rest stuck =>
      rw [trace, stuck] at h
      cases h
  | case3 s events next yields ih =>
      rw [trace, yields] at h
      have reads := step_reads yields
      have unread : P (s.unread inline) := skip _ _ start
      obtain here | later := List.mem_append.mp h
      · obtain ⟨event, inside, rfl⟩ := List.mem_map.mp here
        exact ⟨unread, _, _, _, reads, inside⟩
      · exact ih (read _ _ _ _ reads unread) later

theorem mem_trace {inline : Bool} {s : State} {t : Traced} (h : t ∈ trace inline s) :
    t.unread <:+ s.rest ∧ ∃ blocks events next, Reads blocks t.unread events next ∧
      t.event ∈ events :=
  trace_invariant (P := (· <:+ s.rest))
    (fun semicolons tokens => (skipTrivial_suffix semicolons tokens).trans)
    (fun _ _ _ _ reads => reads.rest_suffix.trans) (List.suffix_refl _) h

theorem unread_suffix_of_mem_trace {inline : Bool} {s : State} {t : Traced}
    (h : t ∈ trace inline s) : t.unread <:+ s.unread inline := by
  rw [trace] at h
  split at h
  · cases h
  · cases h
  next yields =>
    obtain here | later := List.mem_append.mp h
    · obtain ⟨_, _, rfl⟩ := List.mem_map.mp here
      exact List.suffix_refl _
    · exact (mem_trace later).1.trans (step_reads yields).rest_suffix

theorem Run.trace_events {inline : Bool} {s : State} {events : List Event}
    {stop : Option (SyntaxFault × List Token)} (h : Run inline s events stop) :
    (trace inline s).map Traced.event = events := by
  induction h with
  | done h => rw [trace, h]; rfl
  | stuck h => rw [trace, h]; rfl
  | @yield s next events more stop h _ ih =>
      rw [trace, h]
      simp [ih, Function.comp_def]

end Parser
end UtilityCss
