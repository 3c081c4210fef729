import UtilityCss.Proofs.Event.Replacing
import UtilityCss.Proofs.Event.Rereading

/-!
What stands behind a source. Only an item that breaks off with the tokens could go on in those
behind. So a source that ends with the end of its last item can be put in front of any other, and
what is read of the two is what is read of each.
-/
namespace UtilityCss
open UtilityCss.Token
namespace Parser

namespace Traced

/-- An event leaves no group open. Closers that no group is open for count for nothing. -/
def Balanced (t : Traced) : Prop :=
  depthAfter 0 t.body = 0

instance (t : Traced) : Decidable t.Balanced :=
  inferInstanceAs (Decidable (depthAfter 0 t.body = 0))

end Traced

theorem solid_trimEnd (tokens : List Token) : solid (Token.trimEnd tokens) = solid tokens := by
  rw [Token.trimEnd, solid_reverse, solid_dropWhile fun _ => isTrivia_of_isWhitespace,
    ← solid_reverse, List.reverse_reverse]

theorem solid_skipTrivial (tokens : List Token) : solid (skipTrivial false tokens) = solid tokens :=
  solid_dropWhile (fun _ white => isTrivia_of_isWhitespace (by simpa using white)) tokens

theorem depthAfter_congr {xs ys : List Token} (h : solid xs = solid ys) (depth : Nat) :
    depthAfter depth xs = depthAfter depth ys := by
  rw [← depthAfter_solid depth xs, h, depthAfter_solid]

theorem depthAfter_body {name : Token} {rest tail : List Token} {text : Text}
    (found : skipTrivial false rest = ⟨.colon, text⟩ :: tail) :
    depthAfter 0 (Traced.mk (declarationEvent name (Item.scan tail).tokens) (name :: rest)).body =
      depthAfter 0 (name :: ⟨.colon, text⟩ :: (Item.scan tail).tokens) := by
  rw [declarationEvent]
  split
  · simp only [Traced.body, Traced.rawTokens, List.tail_cons, found, List.drop_one]
    exact depthAfter_congr (solid_trimEnd _) _
  · exact depthAfter_congr (solid_trimmedValues _) _

/-- A declaration that leaves no group open also ends where its item does when its name and colon
are taken for a part of it, as they are where a ruleset might stand. -/
theorem scan_declaration {name : Token} {rest tail : List Token} {text : Text}
    (found : skipTrivial false rest = ⟨.colon, text⟩ :: tail) (ends : (Item.scan tail).rest ≠ [])
    (closed : depthAfter 0 (name :: ⟨.colon, text⟩ :: (Item.scan tail).tokens) = 0) :
    (Item.scan (name :: rest)).rest ≠ [] := by
  intro none
  have whole := Item.scan_scanned (name :: rest)
  have clear : Clear isStop 0 (name :: rest) := by
    have clear := whole.clear
    rwa [← List.append_nil (Item.scan _).tokens, ← none, whole.cover] at clear
  have scanned := Item.scan_scanned tail
  obtain ⟨_, none⟩ | ⟨_, token, more, stop, stops⟩ := scanned.ended
  · exact ends none
  have same : solid (name :: rest) =
      solid ((name :: ⟨.colon, text⟩ :: (Item.scan tail).tokens) ++ token :: more) := by
    have read := solid_skipTrivial rest
    rw [found, ← scanned.cover, stop] at read
    rw [solid_cons, ← read, ← solid_append]
    rfl
  have admits (kind : Kind) : kind.isTrivia = true → isStop kind = false := isStop_trivia
  rw [← clear_solid admits, same, clear_solid admits, clear_append] at clear
  have passes := clear.2.1 closed
  simp [isStop, stops] at passes

/-- An item that is over where tokens are left is also over there when it is scanned for the stop
that tells a ruleset from a declaration. -/
theorem Reads.scan_rest_ne_nil {blocks : List Block} {unread : List Token} {events : List Event}
    {next : State} (h : Reads blocks unread events next) {e : Event} (inside : e ∈ events)
    (plain : e.isPlain = true) (ends : (Traced.mk e unread).ending ≠ [])
    (balanced : (Traced.mk e unread).Balanced) : (Item.scan unread).rest ≠ [] := by
  cases h with
  | @ended block _ | @closed block _ _ _ =>
      rw [List.mem_singleton.mp inside] at plain
      cases block <;> cases plain
  | comment | marker _ | atRule _ | beginAtRule _ =>
      rw [List.mem_singleton.mp inside] at plain
      cases plain
  | selectors _ _ _ => obtain ⟨_, _, rfl | rfl⟩ := mem_selectorEvents inside <;> exact ends
  | declaration _ found _ =>
      obtain rfl := List.mem_singleton.mp inside
      rw [ending_declarationEvent found] at ends
      rw [Traced.Balanced, depthAfter_body found] at balanced
      exact scan_declaration found ends balanced

/-- A step whose item is over where tokens are left is the same in front of more, unless these have
a say in what the item is. -/
theorem step_extend {inline : Bool} {s next : State} {events : List Event}
    (h : step inline s = .yield events next) {e : Event} (inside : e ∈ events)
    (ends : (Traced.mk e (s.unread inline)).ending ≠ []) {more : List Token}
    (look : e.isPlain = true → isDeclaration inline s.blocks (s.unread inline ++ more) =
      isDeclaration inline s.blocks (s.unread inline)) :
    step inline ⟨s.rest ++ more, s.blocks⟩ = .yield events ⟨next.rest ++ more, next.blocks⟩ := by
  have whole : (⟨s.rest ++ [], s.blocks⟩ : State) = s := by rw [List.append_nil]
  rw [← whole] at h ends look
  have alike : Alike [] more (step inline ⟨s.rest ++ [], s.blocks⟩)
      (step inline ⟨s.rest ++ more, s.blocks⟩) := by
    refine step_alike h inside ⟨_, ends, (List.append_nil _).symm⟩ fun plain u _ unread => ?_
    rw [unread] at look
    simpa only [List.append_nil] using look plain
  obtain ⟨y, rest, step⟩ := alike.yields h
  rw [step, rest, List.append_nil]

theorem step_append {inline : Bool} {s next : State} {events : List Event}
    (h : step inline s = .yield events next) {e : Event} (inside : e ∈ events)
    (ends : (Traced.mk e (s.unread inline)).ending ≠ [])
    (balanced : (Traced.mk e (s.unread inline)).Balanced) (more : List Token) :
    step inline ⟨s.rest ++ more, s.blocks⟩ = .yield events ⟨next.rest ++ more, next.blocks⟩ := by
  refine step_extend h inside ends fun plain => ?_
  have stops := (step_reads h).scan_rest_ne_nil inside plain ends balanced
  simp only [isDeclaration, Item.scan_extend stops more]

/-- The item of an event ends with the last of the tokens, a semicolon or closing brace. -/
def Traced.Final (t : Traced) : Prop :=
  ∃ last, t.ending = [last] ∧ (last.kind = .semicolon ∨ last.kind = .rightBrace)

instance (t : Traced) : Decidable t.Final :=
  match ending : t.ending with
  | [last] => decidable_of_iff (last.kind = .semicolon ∨ last.kind = .rightBrace) (by
      simp [Traced.Final, ending])
  | [] | _ :: _ :: _ => .isFalse (by simp [Traced.Final, ending])

theorem Run.done_of_trace {inline : Bool} {s : State} {events : List Event}
    (run : Run inline s events none) (empty : trace inline s = []) : step inline s = .done := by
  cases run with
  | done h => exact h
  | yield h _ =>
      rw [trace, h] at empty
      exact absurd (List.map_eq_nil_iff.mp (List.append_eq_nil_iff.mp empty).1)
        (step_reads h).events_ne_nil

/-- Nothing is left after the last item, if it ends with the last of the tokens. -/
theorem rest_of_final {inline : Bool} {s next : State} {events more : List Event}
    (h : step inline s = .yield events next) (run : Run inline next more none)
    (empty : trace inline next = []) {e : Event} (inside : e ∈ events)
    (final : (Traced.mk e (s.unread inline)).Final) : next.rest = [] := by
  obtain ⟨last, ending, _⟩ := final
  have left := (step_reads h).rest_cases inside
  rw [ending] at left
  obtain rest | ⟨rest, brace⟩ := left
  · exact rest
  · -- A brace that is left would close a block or be an error.
    have unread := unread_of_done (run.done_of_trace empty)
    simp [State.unread, rest, skipTrivial, isWhitespace, brace last rfl] at unread

/-- An item that is not the last one ends before the tokens do. -/
theorem ending_of_final {inline : Bool} {s next : State} {events : List Event}
    (h : step inline s = .yield events next) {e : Event} (inside : e ∈ events) {t : Traced}
    (later : t ∈ trace inline next) (final : t.Final) :
    (Traced.mk e (s.unread inline)).ending ≠ [] := by
  intro none
  have rest : next.rest = [] := by
    have left := (step_reads h).rest_cases inside
    rw [none] at left
    obtain rest | ⟨rest, _⟩ := left <;> exact rest
  obtain ⟨last, ending, _⟩ := final
  have suffix := t.ending_suffix.trans (mem_trace later).1
  rw [ending, rest, List.suffix_nil] at suffix
  cases suffix

/-- Of a run that ends with the end of its last item every item ends where tokens are left. -/
theorem exists_ending {inline : Bool} {s next : State} {events more : List Event}
    (h : step inline s = .yield events next) (run : Run inline next more none)
    (final : ∀ t ∈ (trace inline s).getLast?, t.Final) :
    ∃ e ∈ events, (Traced.mk e (s.unread inline)).ending ≠ [] ∧
      (trace inline next = [] → next.rest = []) := by
  rw [trace, h] at final
  have some := (step_reads h).events_ne_nil
  cases last : (trace inline next).getLast? with
  | some t =>
      obtain ⟨e, inside⟩ := List.exists_mem_of_ne_nil _ some
      have later := List.mem_of_getLast? last
      have ends := ending_of_final h inside later (final t (by simp [List.getLast?_append, last]))
      exact ⟨e, inside, ends, fun empty => by simp [empty] at later⟩
  | none =>
      have empty := List.getLast?_eq_none_iff.mp last
      have final : (Traced.mk (events.getLast some) (s.unread inline)).Final :=
        final _ (by simp [empty, List.getLast?_eq_some_getLast some])
      have left := rest_of_final h run empty (List.getLast_mem some) final
      obtain ⟨_, ending, _⟩ := final
      exact ⟨_, List.getLast_mem some, by simp [ending], fun _ => left⟩

/-- A run that ends with the end of its last item goes on with what stands behind. -/
theorem Run.append {inline : Bool} {s : State} {events others : List Event}
    {stop : Option (SyntaxFault × List Token)} {more : List Token} (run : Run inline s events none)
    (balanced : ∀ t ∈ trace inline s, t.Balanced)
    (final : ∀ t ∈ (trace inline s).getLast?, t.Final) (start : trace inline s = [] → s.rest = [])
    (after : Run inline ⟨more, []⟩ others stop) :
    Run inline ⟨s.rest ++ more, s.blocks⟩ (events ++ others) stop := by
  generalize whole : none = ended at run
  induction run with
  | stuck h => cases whole
  | @done s h =>
      rw [start (by rw [trace, h]), blocks_of_done h]
      exact after
  | @yield s next events _ _ h run ih =>
      subst whole
      obtain ⟨e, inside, ends, start'⟩ := exists_ending h run final
      rw [trace, h] at balanced final
      obtain ⟨here, later⟩ := List.forall_mem_append.mp balanced
      have step := step_append h inside ends (here _ (List.mem_map_of_mem inside)) more
      have final' : ∀ t ∈ (trace inline next).getLast?, t.Final := fun t found =>
        final t (by rw [List.getLast?_append, found]; rfl)
      rw [List.append_assoc]
      exact .yield step (ih later final' start' rfl)

end Parser

open UtilityCss.Parser UtilityCss.Lexer

theorem Reading.ofText_eq {source : Text} {tokens : List Token}
    (cut : Lexer.tokens source = .ok tokens) {inline : Bool} {events : List Event}
    {stop : Option (SyntaxFault × List Token)} (run : Run inline ⟨tokens, []⟩ events stop) :
    Reading.ofText source inline =
      ⟨events, stop.map fun (fault, rest) => .before source (Token.source rest) fault⟩ := by
  obtain ⟨events', stop', run', same⟩ := run_eq inline [] ⟨tokens, []⟩
  obtain ⟨rfl, rfl⟩ := run.unique run'
  simp [Reading.ofText, cut, same]

theorem ended_of_final {tokens : List Token} (regular : ∀ token ∈ tokens, token.Regular)
    {t : Traced} (traced : t ∈ trace false ⟨tokens, []⟩) (final : t.Final) : Ended tokens := by
  obtain ⟨last, ending, mark⟩ := final
  obtain ⟨front, rfl⟩ : [last] <:+ tokens := ending ▸ t.ending_suffix.trans (mem_trace traced).1
  intro token found
  rw [List.getLast?_concat] at found
  cases found
  have regular := regular last (by simp)
  obtain semicolon | brace := mark
  · exact ⟨';', by decide, by rw [semicolon]; rfl, regular ';' (by rw [semicolon]; rfl)⟩
  · exact ⟨'\x7d', by decide, by rw [brace]; rfl, regular '\x7d' (by rw [brace]; rfl)⟩

/-- Behind a source that ends with the end of its last item and leaves no group open in any, what
comes is cut into tokens and read as it is by itself. -/
theorem Reading.ofText_append {first second : Text} {tokens others : List Token}
    (cut : Lexer.tokens first = .ok tokens) (parses : (Reading.ofText first false).error = none)
    (balanced : ∀ t ∈ trace false ⟨tokens, []⟩, t.Balanced)
    (final : ∃ t ∈ (trace false ⟨tokens, []⟩).getLast?, t.Final)
    (cut' : Lexer.tokens second = .ok others) :
    (Reading.ofText (first ++ second) false).events =
        (Reading.ofText first false).events ++ (Reading.ofText second false).events ∧
      (Reading.ofText (first ++ second) false).error.map (·.fault) =
        (Reading.ofText second false).error.map (·.fault) := by
  obtain ⟨t, last, final⟩ := final
  have lexes := tokens_eq_ok_iff.mp cut
  have ended := ended_of_final lexes.regular (List.mem_of_getLast? last) final
  have joined : Lexer.tokens (first ++ second) = .ok (tokens ++ others) :=
    tokens_eq_ok_iff.mpr
      ((lexes_append_iff ended lexes.source).mpr ⟨lexes, tokens_eq_ok_iff.mp cut'⟩)
  obtain ⟨stop, run, whole⟩ := Reading.ofText_run cut false
  obtain ⟨events', stop', run', same⟩ := run_eq false [] ⟨others, []⟩
  obtain rfl := whole.mp parses
  have finals : ∀ u ∈ (trace false ⟨tokens, []⟩).getLast?, u.Final := by
    intro u found
    rw [last] at found
    cases found
    exact final
  have both := run.append balanced finals (fun empty => by simp [empty] at last) run'
  rw [Reading.ofText_eq joined both, Reading.ofText_eq cut' run']
  simp [Function.comp_def, SyntaxError.before]

end UtilityCss
