import UtilityCss.Proofs.Event.Path

/-!
A comment put between two tokens. Scanning, splitting and the making of values all pass over
comments, and in front of an item a comment is an event of its own, so that the other events stay as
they are. Two places differ. A custom property keeps the comments of its value, and between the name
of a declaration and its colon only white space is passed over, so that a comment there is an error.
-/
namespace UtilityCss

namespace Token

def uncommented (tokens : List Token) : List Token :=
  tokens.filter (·.kind != .comment)

theorem uncommented_insert (xs ys : List Token) (comment : Text) :
    uncommented (xs ++ ⟨.comment, comment⟩ :: ys) = uncommented (xs ++ ys) := by
  simp [uncommented]

end Token

open UtilityCss.Token

namespace Event

def isComment : Event → Bool
  | comment _ => true
  | _ => false

def isCustom : Event → Bool
  | customProperty _ _ => true
  | _ => false

end Event

namespace Parser

theorem foldl_addValue_uncommented (tokens found : List Token) :
    (uncommented tokens).foldl addValue found = tokens.foldl addValue found := by
  rw [uncommented, List.foldl_filter]
  congr
  funext found token
  by_cases comment : token.kind = .comment <;> simp [addValue, comment]

theorem atRuleValues_uncommented (tokens : List Token) :
    atRuleValues (uncommented tokens) = atRuleValues tokens := by
  rw [atRuleValues, foldl_addValue_uncommented, ← atRuleValues]

theorem trimmedValues_uncommented (tokens : List Token) :
    trimmedValues (uncommented tokens) = trimmedValues tokens := by
  rw [trimmedValues, values, foldl_addValue_uncommented, ← values, ← trimmedValues]

theorem splitGroupsFrom_uncommented (depth : Nat) (part : List Token) (found : List (List Token))
    (tokens : List Token) :
    splitGroupsFrom depth (uncommented part) (found.map uncommented) (uncommented tokens) =
      (splitGroupsFrom depth part found tokens).map uncommented := by
  induction tokens generalizing depth part found with
  | nil => simp [uncommented, splitGroupsFrom, List.filter_reverse]
  | cons token rest ih =>
      by_cases comment : token.kind = .comment
      · have dropped : uncommented (token :: rest) = uncommented rest := by
          simp [uncommented, comment]
        have same : uncommented (token :: part) = uncommented part := by simp [uncommented, comment]
        have within := ih depth (token :: part) found
        rw [same] at within
        rw [dropped, within, splitGroupsFrom, comment]
        simp [Kind.nesting, Kind.opensGroup, Kind.closesGroup]
      · have kept (tokens : List Token) :
            uncommented (token :: tokens) = token :: uncommented tokens := by
          simp [uncommented, comment]
        rw [kept, splitGroupsFrom, splitGroupsFrom]
        split
        · rw [← ih depth [] (part.reverse :: found)]
          simp [uncommented, List.filter_reverse]
        · rw [← ih _ (token :: part) found, kept]

theorem groups_uncommented (tokens : List Token) :
    (splitGroups (uncommented tokens)).map trimmedValues =
      (splitGroups tokens).map trimmedValues := by
  have split : splitGroups (uncommented tokens) = (splitGroups tokens).map uncommented :=
    splitGroupsFrom_uncommented 0 [] [] tokens
  rw [split, List.map_map]
  exact List.map_congr_left fun group _ => trimmedValues_uncommented group

/-- A comment within an item becomes one of its tokens, and the item ends where it did. -/
theorem Item.scan_insert {x back : List Token} (past : (scan (x ++ back)).rest <:+ back)
    (comment : Text) :
    ∃ y, (scan (x ++ back)).tokens = x ++ y ∧
      scan (x ++ ⟨.comment, comment⟩ :: back) =
        ⟨x ++ ⟨.comment, comment⟩ :: y, (scan (x ++ back)).stop, (scan (x ++ back)).rest⟩ := by
  have scanned := scan_scanned (x ++ back)
  generalize scan (x ++ back) = item at scanned past ⊢
  obtain ⟨found, stop, rest⟩ := item
  obtain ⟨y, rfl⟩ := past
  obtain ⟨cover, clear, ended⟩ := scanned
  obtain rfl : found = x ++ y := by
    rw [← List.append_assoc] at cover
    exact List.append_cancel_right cover
  have same : solid (x ++ ⟨.comment, comment⟩ :: y) = solid (x ++ y) := by
    simp [solid, Kind.isTrivia]
  refine ⟨y, rfl, Scanned.scan_eq ⟨by simp, ?_, ?_⟩⟩
  · exact (clear_solid fun _ => isStop_trivia).mp
      (same ▸ (clear_solid fun _ => isStop_trivia).mpr clear)
  · simp only at ended ⊢
    rwa [depthAfter_congr same]

namespace Traced

/-- The place in front of the given tokens lies between the name of a declaration and its colon. -/
def PartsName (t : Traced) (back : List Token) : Prop :=
  t.event.isDeclared = true ∧ skipTrivial false t.unread.tail <:+ back ∧ back <:+ t.unread.tail

/-- The place in front of the given tokens lies between the colon and the end of a custom
property. -/
def PartsValue (t : Traced) (back : List Token) : Prop :=
  t.event.isCustom = true ∧ t.ending <:+ back ∧ back <:+ t.rawTokens ++ t.ending

instance (t : Traced) (back : List Token) : Decidable (t.PartsName back) :=
  inferInstanceAs (Decidable (_ ∧ _ ∧ _))

instance (t : Traced) (back : List Token) : Decidable (t.PartsValue back) :=
  inferInstanceAs (Decidable (_ ∧ _ ∧ _))

theorem ending_of_isDeclared {t : Traced} (declared : t.event.isDeclared = true) :
    t.ending = (Item.scan ((skipTrivial false t.unread.tail).drop 1)).rest := by
  obtain ⟨event, unread⟩ := t
  cases event with
  | declaration _ _ | customProperty _ _ => rfl
  | _ => cases declared

/-- The whole of a declaration is not over in front of a place behind its name. -/
theorem PartsName.not_endsBefore {t : Traced} {back : List Token} (parts : t.PartsName back) :
    ¬ t.EndsBefore back := by
  rintro ⟨r, some, ends⟩
  obtain ⟨declared, colon, _⟩ := parts
  have item : t.ending <:+ (skipTrivial false t.unread.tail).drop 1 :=
    ending_of_isDeclared declared ▸ Item.rest_suffix _
  have short := (item.trans (List.drop_suffix 1 _)).trans colon
  rw [ends] at short
  exact some (List.suffix_nil.mp (List.suffix_append_self_iff.mp short))

end Traced

theorem skips_of_skipTrivial {semicolons : Bool} {u back : List Token}
    (gone : skipTrivial semicolons (u ++ back) <:+ back) (z : List Token) :
    skipTrivial semicolons (u ++ z) = skipTrivial semicolons z := by
  apply List.dropWhile_append_of_pos
  induction u with
  | nil => simp
  | cons token rest ih =>
      rw [skipTrivial, List.cons_append, List.dropWhile_cons] at gone
      split at gone
      next skipped => exact List.forall_mem_cons.mpr ⟨skipped, ih gone⟩
      next =>
        have longer := gone.length_le
        simp only [List.length_append, List.length_cons] at longer
        omega

/-- A place that is not in front of what is found lies behind the first token of that. -/
theorem exists_of_skipTrivial {semicolons : Bool} {u back tail : List Token} {token : Token}
    (found : skipTrivial semicolons (u ++ back) = token :: tail)
    (outside : ¬ token :: tail <:+ back) : ∃ w, tail = w ++ back := by
  have inRest : token :: tail <:+ u ++ back := found ▸ skipTrivial_suffix semicolons _
  obtain within | behind := List.suffix_or_suffix_of_suffix inRest (List.suffix_append u back)
  · exact absurd within outside
  · obtain same | ⟨w, same⟩ := List.suffix_cons_iff.mp behind
    · exact absurd (same ▸ List.suffix_refl _) outside
    · exact ⟨w, same.symm⟩

theorem declarationEvent_insert {name : Token} (plain : isCustomName name = false)
    (xs ys : List Token) (comment : Text) :
    declarationEvent name (xs ++ ⟨.comment, comment⟩ :: ys) = declarationEvent name (xs ++ ys) := by
  rw [declarationEvent, declarationEvent, if_neg (by simp [plain]), if_neg (by simp [plain]),
    ← trimmedValues_uncommented, uncommented_insert, trimmedValues_uncommented]

section Items
variable {u back : List Token} {blocks : List Block} {events : List Event} {next : State}
  (comment : Text)

theorem atRule_comment (past : (Item.scan (u ++ back)).rest <:+ back) (name : Token)
    (blocks : List Block) :
    atRule name (u ++ ⟨.comment, comment⟩ :: back) blocks = atRule name (u ++ back) blocks := by
  obtain ⟨y, found, scanned⟩ := Item.scan_insert past comment
  have same : atRuleValues (u ++ ⟨.comment, comment⟩ :: y) = atRuleValues (u ++ y) := by
    rw [← atRuleValues_uncommented, uncommented_insert, atRuleValues_uncommented]
  simp only [atRule, scanned, found, same]

theorem prelude_comment (past : (Item.scan (u ++ back)).rest <:+ back)
    (h : prelude (u ++ back) blocks = .yield events next) :
    prelude (u ++ ⟨.comment, comment⟩ :: back) blocks = .yield events next := by
  obtain ⟨y, found, scanned⟩ := Item.scan_insert past comment
  have same : (splitGroups (u ++ ⟨.comment, comment⟩ :: y)).map trimmedValues =
      (splitGroups (u ++ y)).map trimmedValues := by
    rw [← groups_uncommented, uncommented_insert, groups_uncommented]
  simp only [prelude, found] at h
  simp only [prelude, scanned, same]
  split at h
  · cases h
  next block =>
    rw [if_neg block]
    split at h
    · cases h
    next full =>
      rw [if_neg full]
      exact h

/-- A comment in a declaration changes nothing, except where the text of a custom property takes it
in and where it parts the name from its colon. -/
theorem declaration_comment {name : Token} {e : Event}
    (h : declaration name (u ++ back) blocks = .yield events next) (inside : e ∈ events)
    (past : (Traced.mk e (name :: u ++ back)).ending <:+ back)
    (outsideName : ¬ (Traced.mk e (name :: u ++ back)).PartsName back)
    (outsideValue : ¬ (Traced.mk e (name :: u ++ back)).PartsValue back) :
    declaration name (u ++ ⟨.comment, comment⟩ :: back) blocks = .yield events next := by
  obtain ⟨text, tail, found, rfl⟩ := declaration_found h
  obtain rfl := List.mem_singleton.mp inside
  have outside : ¬ ⟨.colon, text⟩ :: tail <:+ back := fun within =>
    outsideName ⟨isDeclared_declarationEvent _ _, found ▸ within, List.suffix_append u back⟩
  obtain ⟨w, rfl⟩ := exists_of_skipTrivial found outside
  rw [List.cons_append, ending_declarationEvent found] at past
  obtain ⟨y, inItem, scanned⟩ := Item.scan_insert past comment
  have plain : isCustomName name = false := by
    by_contra custom
    have custom : isCustomName name = true := by simpa using custom
    have event : (declarationEvent name (Item.scan (w ++ back)).tokens).isCustom = true := by
      rw [declarationEvent, if_pos custom]
      rfl
    refine outsideValue ⟨event, ?_, w, ?_⟩
    · rw [List.cons_append, ending_declarationEvent found]
      exact past
    · rw [List.cons_append, ending_declarationEvent found]
      simpa [Traced.rawTokens, found] using (Item.scan_scanned (w ++ back)).cover.symm
  have found' := @skipTrivial_replace false u (⟨.colon, text⟩ :: w) back found
    (List.cons_ne_nil _ _) (⟨.comment, comment⟩ :: back)
  rw [List.cons_append] at found'
  simp only [declaration, found, inItem] at h
  simp only [declaration, found', scanned, declarationEvent_insert plain]
  rw [inItem]
  exact h

end Items

theorem isDeclaration_comment (inline : Bool) (blocks : List Block) (u back : List Token)
    (comment : Text) :
    isDeclaration inline blocks (u ++ ⟨.comment, comment⟩ :: back) =
      isDeclaration inline blocks (u ++ back) := by
  simp only [isDeclaration]
  rw [Item.scan_neutral_stop rfl fun _ => rfl]

/-- A comment in an item does not change what the item reads as. -/
theorem itemStep_comment {inline : Bool} {token : Token} {u back : List Token} {blocks : List Block}
    {events : List Event} {next : State}
    (h : itemStep inline token (u ++ back) blocks = .yield events next) {e : Event}
    (inside : e ∈ events) (past : (Traced.mk e (token :: u ++ back)).ending <:+ back)
    (outsideName : ¬ (Traced.mk e (token :: u ++ back)).PartsName back)
    (outsideValue : ¬ (Traced.mk e (token :: u ++ back)).PartsValue back) (comment : Text) :
    itemStep inline token (u ++ ⟨.comment, comment⟩ :: back) blocks = .yield events next := by
  have proper : ¬ token :: u ++ back <:+ back := by
    intro short
    have longer := short.length_le
    simp only [List.length_append, List.length_cons] at longer
    omega
  cases opener inline blocks token with
  | alone event after _ ending step =>
      rw [step] at h
      cases h
      rw [List.mem_singleton.mp inside, ending] at past
      exact absurd past proper
  | wrong step =>
      rw [step] at h
      cases h
  | atRule step =>
      rw [step] at h ⊢
      obtain ⟨_, rfl | rfl⟩ := atRule_events h inside
      all_goals
        rw [atRule_comment comment past]
        exact h
  | item step =>
      have look := isDeclaration_comment inline blocks (token :: u) back comment
      rw [List.cons_append, List.cons_append] at look
      rw [step] at h ⊢
      rw [look]
      split at h
      next declared =>
        rw [if_pos declared]
        exact declaration_comment comment h inside past outsideName outsideValue
      next ruled =>
        rw [if_neg ruled]
        obtain ⟨_, rfl | rfl⟩ := prelude_events h inside
        all_goals exact @prelude_comment (token :: u) _ _ _ _ comment past h

/-- A comment in the next item does not change the step that reads it. -/
theorem step_comment {inline : Bool} {y u back : List Token} {blocks : List Block}
    {events : List Event} {next : State}
    (unread : State.unread inline ⟨y ++ back, blocks⟩ = u ++ back) (some : u ≠ [])
    (h : step inline ⟨y ++ back, blocks⟩ = .yield events next) {e : Event} (inside : e ∈ events)
    (past : (Traced.mk e (u ++ back)).ending <:+ back)
    (outsideName : ¬ (Traced.mk e (u ++ back)).PartsName back)
    (outsideValue : ¬ (Traced.mk e (u ++ back)).PartsValue back) (comment : Text) :
    step inline ⟨y ++ ⟨.comment, comment⟩ :: back, blocks⟩ = .yield events next := by
  obtain ⟨token, u, rfl⟩ := List.exists_cons_of_ne_nil some
  have unread' : State.unread inline ⟨y ++ ⟨.comment, comment⟩ :: back, blocks⟩ =
      token :: u ++ ⟨.comment, comment⟩ :: back :=
    skipTrivial_replace unread (List.cons_ne_nil _ _) _
  rw [step_of_unread unread] at h
  rw [step_of_unread unread']
  exact itemStep_comment h inside past outsideName outsideValue comment

/-- In front of an item a comment is read first, and then what would have been read without it. -/
theorem step_comment_before {inline : Bool} {y back : List Token} {blocks : List Block}
    (before : State.unread inline ⟨y ++ back, blocks⟩ <:+ back) (comment : Text) :
    step inline ⟨y ++ ⟨.comment, comment⟩ :: back, blocks⟩ =
        .yield [.comment comment] ⟨back, blocks⟩ ∧
      step inline ⟨back, blocks⟩ = step inline ⟨y ++ back, blocks⟩ := by
  have skips := skips_of_skipTrivial before
  constructor
  · have unread : State.unread inline ⟨y ++ ⟨.comment, comment⟩ :: back, blocks⟩ =
        ⟨.comment, comment⟩ :: back := by
      rw [State.unread, skips]
      simp [skipTrivial, isWhitespace]
    rw [step_of_unread unread]
    rfl
  · simp only [step, skips]

/-- Between the name of a declaration and its colon a comment is met where the colon is awaited. -/
theorem step_comment_name {inline : Bool} {y back : List Token} {blocks : List Block}
    {events : List Event} {next : State} (h : step inline ⟨y ++ back, blocks⟩ = .yield events next)
    {e : Event} (inside : e ∈ events)
    (parts : (Traced.mk e (State.unread inline ⟨y ++ back, blocks⟩)).PartsName back)
    (comment : Text) :
    step inline ⟨y ++ ⟨.comment, comment⟩ :: back, blocks⟩ =
      .stuck .missingColon (⟨.comment, comment⟩ :: back) := by
  obtain ⟨declared, colon, behind⟩ := parts
  obtain ⟨name, rest, unread⟩ := (step_reads h).name_of_isDeclared inside declared
  rw [unread, List.tail_cons] at colon behind
  obtain ⟨spaces, rfl⟩ := behind
  have unread' : State.unread inline ⟨y ++ ⟨.comment, comment⟩ :: back, blocks⟩ =
      name :: (spaces ++ ⟨.comment, comment⟩ :: back) :=
    skipTrivial_replace (u := name :: spaces) unread (List.cons_ne_nil _ _) _
  have awaited : skipTrivial false (spaces ++ ⟨.comment, comment⟩ :: back) =
      ⟨.comment, comment⟩ :: back := by
    rw [skips_of_skipTrivial colon]
    simp [skipTrivial, isWhitespace]
  have look := isDeclaration_comment inline blocks (name :: spaces) back comment
  rw [List.cons_append, List.cons_append] at look
  rw [step_of_unread unread] at h
  rw [step_of_unread unread', itemStep_of_declared h inside declared look, declaration, awaited]

/-- No item that begins behind a place has its name in front of it. -/
theorem not_partsName_of_suffix {inline : Bool} {s : State} {t : Traced} (h : t ∈ trace inline s)
    {back : List Token} (behind : t.unread <:+ back) : ¬ t.PartsName back := by
  rintro ⟨declared, -, parts⟩
  obtain ⟨_, _, _, _, reads, inside⟩ := mem_trace h
  obtain ⟨name, rest, unread⟩ := reads.name_of_isDeclared inside declared
  rw [unread] at behind parts
  have short := (behind.trans parts).length_le
  simp only [List.tail_cons, List.length_cons] at short
  omega

/-- A run to the end over an item, or up to one, with a comment in it. -/
theorem Run.comment {inline : Bool} {y back : List Token} {blocks : List Block}
    {events : List Event} (run : Run inline ⟨y ++ back, blocks⟩ events none)
    (meets : Meets inline ⟨y ++ back, blocks⟩ back)
    (outsideName : ∀ t ∈ trace inline ⟨y ++ back, blocks⟩, ¬ t.PartsName back)
    (outsideValue : ∀ t ∈ trace inline ⟨y ++ back, blocks⟩, ¬ t.PartsValue back) (comment : Text) :
    ∃ events', Run inline ⟨y ++ ⟨.comment, comment⟩ :: back, blocks⟩ events' none ∧
      events'.filter (!·.isComment) = events.filter (!·.isComment) := by
  cases meets with
  | before before =>
      obtain ⟨first, later⟩ := step_comment_before before comment
      exact ⟨_, .yield first (run.congr later.symm), rfl⟩
  | @within u _ _ e some unread yields inside past =>
      cases run with
      | done done => cases yields.symm.trans done
      | yield yields' run =>
          cases yields.symm.trans yields'
          have here : Traced.mk e (State.unread inline ⟨y ++ back, blocks⟩) ∈
              trace inline ⟨y ++ back, blocks⟩ := by
            rw [trace, yields]
            exact List.mem_append_left _ (List.mem_map_of_mem inside)
          have outsideName := outsideName _ here
          have outsideValue := outsideValue _ here
          rw [unread] at past outsideName outsideValue
          have stepped :=
            step_comment unread some yields inside past outsideName outsideValue comment
          exact ⟨_, .yield stepped run, rfl⟩

/-- Where a comment parts a name from its colon the item with that name is the one it is in. -/
theorem Meets.step_comment_name {inline : Bool} {y back : List Token} {blocks : List Block}
    (meets : Meets inline ⟨y ++ back, blocks⟩ back) {t : Traced}
    (h : t ∈ trace inline ⟨y ++ back, blocks⟩) (parts : t.PartsName back) (comment : Text) :
    step inline ⟨y ++ ⟨.comment, comment⟩ :: back, blocks⟩ =
      .stuck .missingColon (⟨.comment, comment⟩ :: back) := by
  have inUnread := unread_suffix_of_mem_trace h
  cases meets with
  | before before => exact absurd parts (not_partsName_of_suffix h (inUnread.trans before))
  | @within _ _ next _ _ _ yields inside past =>
      have whole := h
      rw [trace, yields] at h
      obtain here | later := List.mem_append.mp h
      · obtain ⟨_, inside', rfl⟩ := List.mem_map.mp here
        exact Parser.step_comment_name yields inside' parts comment
      · have behind := (step_reads yields).rest_suffix_ending inside
        exact absurd parts (not_partsName_of_suffix whole
          (((mem_trace later).1.trans behind).trans past))

end Parser

open UtilityCss.Parser

/-- A comment put between two tokens of a source that reads without error, and not into the value of
a custom property, changes no event but its own, unless it stands between the name of a declaration
and its colon. There it is an error. -/
theorem reading_commented {source : Text} {inline : Bool} {front back : List Token} {comment : Text}
    (cut : Lexer.tokens source = .ok (front ++ back))
    (parses : (Reading.ofText source inline).error = none)
    (outside : ∀ t ∈ trace inline ⟨front ++ back, []⟩, ¬ t.PartsValue back)
    (cut' : Lexer.tokens (Token.source front ++ comment ++ Token.source back) =
      .ok (front ++ ⟨.comment, comment⟩ :: back)) :
    let text := Token.source front ++ comment ++ Token.source back
    let commented := Reading.ofText text inline
    ((∀ t ∈ trace inline ⟨front ++ back, []⟩, ¬ t.PartsName back) →
        commented.error = none ∧ commented.events.filter (!·.isComment) =
          (Reading.ofText source inline).events.filter (!·.isComment)) ∧
      ((∃ t ∈ trace inline ⟨front ++ back, []⟩, t.PartsName back) →
        commented.error = some (.before text (comment ++ Token.source back) .missingColon)) := by
  intro text commented
  obtain ⟨stop, run, whole⟩ := Reading.ofText_run cut inline
  obtain rfl := whole.mp parses
  obtain ⟨ts, y, blocks, path, ends, meets⟩ := run.meets
  obtain ⟨more, events, rest⟩ := path.rest_run run
  have lead {events stop}
      (run : Run inline ⟨y ++ ⟨.comment, comment⟩ :: back, blocks⟩ events stop) :
      Run inline ⟨front ++ ⟨.comment, comment⟩ :: back, []⟩ (ts.map Traced.event ++ events) stop :=
    path.run_replace ends (fun u _ _ => Item.scan_neutral_stop rfl (fun _ => rfl) u back) rfl run
  have traced := path.trace_eq
  constructor
  · intro outsideName
    rw [traced, List.forall_mem_append] at outside outsideName
    obtain ⟨events', run', same⟩ := rest.comment meets outsideName.2 outside.2 comment
    have reading : commented = _ := Reading.ofText_eq cut' (lead run')
    rw [reading, events]
    exact ⟨rfl, by simp [same]⟩
  · rintro ⟨t, inside, parts⟩
    rw [traced] at inside
    obtain passed | here := List.mem_append.mp inside
    · exact absurd (ends t passed) parts.not_endsBefore
    · have stuck := lead (.stuck (meets.step_comment_name here parts comment))
      have reading : commented = _ := Reading.ofText_eq cut' stuck
      rw [reading]
      rfl

/-- A comment with a semicolon in a value, behind a custom property. -/
theorem comment_in_value :
    let front : List Token :=
      [⟨.ident, ['a']⟩, leftBrace, ⟨.ident, "--v".toList⟩, colon, ⟨.ident, ['x']⟩, semicolon,
        ⟨.ident, ['b']⟩, colon, ⟨.ident, ['c']⟩]
    let back : List Token := [⟨.whitespace, [' ']⟩, ⟨.ident, ['d']⟩, rightBrace]
    Lexer.tokens "a\x7b--v:x;b:c d\x7d".toList = .ok (front ++ back) ∧
      (Reading.ofText "a\x7b--v:x;b:c/*;*/ d\x7d".toList false).error = none ∧
      (Reading.ofText "a\x7b--v:x;b:c/*;*/ d\x7d".toList false).events.filter (!·.isComment) =
        (Reading.ofText "a\x7b--v:x;b:c d\x7d".toList false).events.filter (!·.isComment) := by
  intro front back
  have cut : Lexer.tokens "a\x7b--v:x;b:c d\x7d".toList = .ok (front ++ back) := by decide +kernel
  have parses : (Reading.ofText "a\x7b--v:x;b:c d\x7d".toList false).error = none := by
    decide +kernel
  have text : Token.source front ++ "/*;*/".toList ++ Token.source back =
      "a\x7b--v:x;b:c/*;*/ d\x7d".toList := by decide +kernel
  have cut' : Lexer.tokens (Token.source front ++ "/*;*/".toList ++ Token.source back) =
      .ok (front ++ ⟨.comment, "/*;*/".toList⟩ :: back) := by
    rw [text]
    decide +kernel
  have outsideValue : ∀ t ∈ trace false ⟨front ++ back, []⟩, ¬ t.PartsValue back := by
    decide +kernel
  have outsideName : ∀ t ∈ trace false ⟨front ++ back, []⟩, ¬ t.PartsName back := by decide +kernel
  have same := (reading_commented cut parses outsideValue cut').1 outsideName
  rw [text] at same
  exact ⟨cut, same⟩

/-- A comment between the name of a declaration and its colon stands where only a colon may
stand. -/
theorem comment_before_colon :
    let front : List Token := [⟨.ident, ['a']⟩, leftBrace, ⟨.ident, ['b']⟩]
    let back : List Token := [colon, ⟨.ident, ['c']⟩, rightBrace]
    Lexer.tokens "a\x7bb:c\x7d".toList = .ok (front ++ back) ∧
      (Reading.ofText "a\x7bb:c\x7d".toList false).error = none ∧
      (∀ t ∈ trace false ⟨front ++ back, []⟩, ¬ t.PartsValue back) ∧
      Lexer.tokens "a\x7bb/**/:c\x7d".toList = .ok (front ++ ⟨.comment, "/**/".toList⟩ :: back) ∧
      (Reading.ofText "a\x7bb/**/:c\x7d".toList false).error = some ⟨.missingColon, ⟨1, 4⟩⟩ := by
  decide +kernel

end UtilityCss
