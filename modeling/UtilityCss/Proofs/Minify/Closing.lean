import UtilityCss.Convert
import UtilityCss.Proofs.Event.Surfacing
import UtilityCss.Proofs.Minify.Copying

/-!
Reading without semicolons in front of closing braces. Such a semicolon is a token by itself, so
the others stay as they are without it. Where it ends an item the brace ends the item in its place;
where items are separated it is skipped. Only inside of a group does it count as a value.
-/
namespace UtilityCss.Minify
open UtilityCss.Octets UtilityCss.Lexer UtilityCss.Parser

def beginsClosing : List Token → Bool
  | token :: _ => token.kind == .rightBrace
  | [] => false

/-- How many groups are open after a token, where a brace outside of all groups opens none. -/
def depthBeyond (depth : Nat) (kind : Kind) : Nat :=
  if depth = 0 ∧ kind = .leftBrace then 0 else kind.nesting depth

theorem depthBeyond_mono (kind : Kind) {depth depth' : Nat} (h : depth ≤ depth') :
    depthBeyond depth kind ≤ depthBeyond depth' kind := by
  have nested := nesting_mono kind h
  by_cases brace : kind = .leftBrace
  · simp only [depthBeyond, brace, and_true] at nested ⊢
    repeat' split
    all_goals omega
  · simpa [depthBeyond, brace] using nested

/-- Tokens and the same less some semicolons in front of a closing brace, none of which stands in a
group, with the given number of groups open in front. -/
inductive Drops : Nat → List Token → List Token → Prop
  | nil {depth} : Drops depth [] []
  | keep {depth token rest rest'} : Drops (depthBeyond depth token.kind) rest rest' →
      Drops depth (token :: rest) (token :: rest')
  | drop {token rest rest'} : token.kind = .semicolon → beginsClosing rest = true →
      Drops 0 rest rest' → Drops 0 (token :: rest) rest'

theorem Drops.mono {depth depth' : Nat} {ts us : List Token} (h : Drops depth' ts us)
    (less : depth ≤ depth') : Drops depth ts us := by
  induction h generalizing depth with
  | nil => exact .nil
  | keep _ ih => exact .keep (ih (depthBeyond_mono _ less))
  | drop semicolon closing rest _ =>
      obtain rfl : depth = 0 := by omega
      exact .drop semicolon closing rest

theorem Drops.outside {depth : Nat} {ts us : List Token} (h : Drops depth ts us) : Drops 0 ts us :=
  h.mono (Nat.zero_le depth)

theorem Drops.kept {depth : Nat} {token : Token} {rest us : List Token}
    (h : Drops depth (token :: rest) us) (other : token.kind ≠ .semicolon) :
    ∃ rest', us = token :: rest' ∧ Drops (depthBeyond depth token.kind) rest rest' := by
  cases h with
  | keep h => exact ⟨_, rfl, h⟩
  | drop semicolon _ _ => exact absurd semicolon other

/-- A closing brace stays in its place. -/
theorem Drops.closing {depth : Nat} {ts us : List Token} (h : Drops depth ts us)
    (closing : beginsClosing ts = true) :
    ∃ brace rest rest', brace.kind = .rightBrace ∧ ts = brace :: rest ∧ us = brace :: rest' := by
  cases h with
  | nil => cases closing
  | keep _ => exact ⟨_, _, _, beq_iff_eq.mp closing, rfl, rfl⟩
  | drop semicolon _ _ =>
      rw [beginsClosing, semicolon] at closing
      cases closing

/-- A semicolon is a token by itself, and those after it are cut from it. -/
theorem lexes_semicolon {ts us : List Token} {token : Token}
    (h : Lexes (Token.source (ts ++ token :: us)) (ts ++ token :: us))
    (semicolon : token.kind = .semicolon) :
    token = ⟨.semicolon, [';']⟩ ∧ Lexes (Token.source us) us := by
  have text : token.text = [';'] := h.regular token (by simp) ';' (by rw [semicolon]; rfl)
  obtain ⟨_, _⟩ := token
  subst semicolon text
  rw [Token.source_append] at h
  exact ⟨rfl, (lexes_mark_iff rfl).mp (h.after rfl (separate_of_first (by simp)))⟩

theorem lexes_drops_append {ts us us' : List Token} {depth : Nat}
    (h : Lexes (Token.source (ts ++ us)) (ts ++ us)) (dropped : Drops depth us us') :
    Lexes (Token.source (ts ++ us')) (ts ++ us') := by
  induction dropped generalizing ts with
  | nil => exact h
  | @keep _ token rest rest' _ ih =>
      have shifted (vs : List Token) : ts ++ token :: vs = (ts ++ [token]) ++ vs := by simp
      rw [shifted] at h ⊢
      exact ih h
  | @drop token rest rest' semicolon closing dropped ih =>
      refine ih ?_
      obtain ⟨rfl, lexed⟩ := lexes_semicolon h semicolon
      obtain ⟨brace, more, _, kind, rfl, _⟩ := dropped.closing closing
      have text : brace.text = ['\x7d'] := lexed.regular brace (by simp) '\x7d' (by rw [kind]; rfl)
      obtain ⟨_, _⟩ := brace
      subst kind text
      rw [Token.source_append] at h ⊢
      exact h.cut (p := ';') (q := '\x7d') (by decide) (by decide) (apart_of_mark (by decide))
        rfl (separate_of_first (by simp)) lexed

/-- The tokens that are left still are those of their text. -/
theorem lexes_drops {text : Text} {ts us : List Token} (h : Lexes text ts) {depth : Nat}
    (dropped : Drops depth ts us) : Lexes (Token.source us) us := by
  have start := h.source ▸ h
  exact @lexes_drops_append [] ts us depth start dropped

theorem Drops.skipTrivial {depth : Nat} {ts us : List Token} (h : Drops depth ts us)
    (semicolons : Bool) :
    Drops 0 (Parser.skipTrivial semicolons ts) (Parser.skipTrivial semicolons us) := by
  induction h with
  | nil => exact .nil
  | @keep _ token rest rest' h ih =>
      simp only [Parser.skipTrivial, List.dropWhile_cons] at ih ⊢
      split
      · exact ih
      · exact .keep (h.mono (depthBeyond_mono _ (Nat.zero_le _)))
  | @drop token rest rest' semicolon closing h ih =>
      have solid : token.isWhitespace = false := by simp [Token.isWhitespace, semicolon]
      cases semicolons with
      | true => simpa [Parser.skipTrivial, semicolon] using ih
      | false =>
          obtain ⟨brace, more, more', kind, rfl, rfl⟩ := h.closing closing
          have stays : brace.isWhitespace = false := by simp [Token.isWhitespace, kind]
          simpa [Parser.skipTrivial, solid, stays] using Drops.drop semicolon closing h

/-- The item that begins some tokens, and the same tokens less the dropped semicolons. -/
structure SameItem (item item' : Item) : Prop where
  tokens : item'.tokens = item.tokens
  opens : item'.stop = .leftBrace ↔ item.stop = .leftBrace
  after : Drops 0 item.after item'.after

theorem scanFrom_drops {depth : Nat} (found : List Token) {ts us : List Token}
    (h : Drops depth ts us) :
    SameItem (Item.scanFrom depth found ts) (Item.scanFrom depth found us) := by
  have stopped (token : Token) {stop : Stop} (ends : Stop.ofKind? token.kind = some stop)
      (found rest : List Token) :
      Item.scanFrom 0 found (token :: rest) = ⟨found.reverse, stop, token :: rest⟩ := by
    simp [Item.scanFrom, ends]
  induction h generalizing found with
  | nil => exact ⟨rfl, Iff.rfl, .nil⟩
  | @keep depth token rest rest' h ih =>
      by_cases stops : depth = 0 ∧ isStop token.kind = true
      · obtain ⟨rfl, isStop⟩ := stops
        obtain ⟨stop, ends⟩ := Option.isSome_iff_exists.mp isStop
        rw [stopped token ends, stopped token ends]
        refine ⟨rfl, Iff.rfl, ?_⟩
        obtain ⟨_, rfl⟩ | ⟨_, rfl⟩ | ⟨_, rfl⟩ := Stop.ofKind?_eq_some ends
        · exact h.outside
        · exact h.outside
        · exact .keep h
      · have passes : depth = 0 → isStop token.kind = false := by simpa using stops
        have beyond : depthBeyond depth token.kind = token.kind.nesting depth := by
          rw [depthBeyond, if_neg]
          rintro ⟨top, brace⟩
          have plain := passes top
          rw [brace] at plain
          cases plain
        rw [Item.scanFrom_cons passes, Item.scanFrom_cons passes, ← beyond]
        exact ih _
  | @drop token rest rest' semicolon closing h _ =>
      obtain ⟨brace, more, more', kind, rfl, rfl⟩ := h.closing closing
      rw [stopped token (by rw [semicolon]; rfl), stopped brace (by rw [kind]; rfl)]
      exact ⟨rfl, by simp, h⟩

theorem scan_drops {ts us : List Token} (h : Drops 0 ts us) :
    SameItem (Item.scan ts) (Item.scan us) :=
  scanFrom_drops [] h

/-- A step of the other kind of reading: the same events, what is left less dropped semicolons. -/
def Follows (step step' : Step) : Prop :=
  ∀ events next, step = .yield events next →
    ∃ rest, step' = .yield events ⟨rest, next.blocks⟩ ∧ Drops 0 next.rest rest

theorem atRule_eq (name : Token) (rest : List Token) (blocks : List Block) :
    atRule name rest blocks =
      if (Item.scan rest).stop = .leftBrace then
        .yield [.beginAtRule name.text (atRuleValues (Item.scan rest).tokens)]
          ⟨(Item.scan rest).after, .atRule :: blocks⟩
      else .yield [.atRule name.text (atRuleValues (Item.scan rest).tokens)]
        ⟨(Item.scan rest).after, blocks⟩ := by
  simp only [atRule, Item.after]
  split <;> simp_all

theorem prelude_eq (tokens : List Token) (blocks : List Block) :
    prelude tokens blocks =
      if (Item.scan tokens).stop ≠ .leftBrace then .stuck .missingBlock (Item.scan tokens).rest
      else if ((splitGroups (Item.scan tokens).tokens).map trimmedValues).any (·.isEmpty) then
        .stuck .emptySelector tokens
      else .yield (selectorEvents ((splitGroups (Item.scan tokens).tokens).map trimmedValues))
        ⟨(Item.scan tokens).after, .ruleset :: blocks⟩ := by
  simp only [prelude, Item.after]
  split
  · rfl
  next opens =>
    rw [not_not] at opens
    simp only [opens]

theorem declaration_eq {name : Token} {rest : List Token} {colon : Text} {value : List Token}
    (found : skipTrivial false rest = ⟨.colon, colon⟩ :: value) (blocks : List Block) :
    declaration name rest blocks =
      if (Item.scan value).stop = .leftBrace then .stuck .blockInDeclaration (Item.scan value).rest
      else .yield [declarationEvent name (Item.scan value).tokens]
        ⟨(Item.scan value).after, blocks⟩ := by
  simp only [declaration, found, Item.after]
  split <;> simp_all

theorem atRule_follows (name : Token) {ts us : List Token} (h : Drops 0 ts us)
    (blocks : List Block) : Follows (atRule name ts blocks) (atRule name us blocks) := by
  intro events next yields
  obtain ⟨tokens, opens, after⟩ := scan_drops h
  rw [atRule_eq] at yields
  rw [atRule_eq, tokens]
  simp only [opens]
  split at yields <;> cases yields
  next brace => exact ⟨_, if_pos brace, after⟩
  next brace => exact ⟨_, if_neg brace, after⟩

theorem prelude_follows {ts us : List Token} (h : Drops 0 ts us) (blocks : List Block) :
    Follows (prelude ts blocks) (prelude us blocks) := by
  intro events next yields
  obtain ⟨tokens, opens, after⟩ := scan_drops h
  rw [prelude_eq] at yields
  rw [prelude_eq, tokens]
  simp only [ne_eq, opens]
  split at yields
  · cases yields
  next brace =>
    rw [if_neg brace]
    split at yields <;> cases yields
    next full => exact ⟨_, if_neg full, after⟩

theorem declaration_follows (name : Token) {ts us : List Token} (h : Drops 0 ts us)
    (blocks : List Block) : Follows (declaration name ts blocks) (declaration name us blocks) := by
  intro events next yields
  have skipped := h.skipTrivial false
  cases found : skipTrivial false ts with
  | nil => simp [declaration, found] at yields
  | cons token value =>
      obtain ⟨kind, text⟩ := token
      by_cases colon : kind = .colon
      · subst colon
        rw [found] at skipped
        obtain ⟨value', found', h⟩ := skipped.kept (by simp)
        obtain ⟨tokens, opens, after⟩ := scan_drops h.outside
        rw [declaration_eq found] at yields
        rw [declaration_eq found', tokens]
        simp only [opens]
        split at yields <;> cases yields
        next brace => exact ⟨_, if_neg brace, after⟩
      · simp only [declaration, found] at yields
        split at yields
        next same => exact absurd (congrArg Token.kind (List.cons.inj same).1) colon
        next => cases yields

theorem isDeclaration_drops {ts us : List Token} (h : Drops 0 ts us) (inline : Bool)
    (blocks : List Block) : isDeclaration inline blocks us = isDeclaration inline blocks ts := by
  have opens := (scan_drops h).opens
  match blocks with
  | [] | .ruleset :: _ => rfl
  | .atRule :: _ =>
      show ((Item.scan us).stop != .leftBrace) = ((Item.scan ts).stop != .leftBrace)
      by_cases brace : (Item.scan ts).stop = .leftBrace
      · rw [brace, opens.mpr brace]
      · rw [bne_iff_ne.mpr brace, bne_iff_ne.mpr (mt opens.mp brace)]

/-- A semicolon in front of a closing brace begins no item that could be read. -/
theorem itemStep_closing {inline : Bool} {token : Token} {rest : List Token} {blocks : List Block}
    (kind : token.kind = .semicolon) (closing : beginsClosing rest = true) :
    ∃ fault left, itemStep inline token rest blocks = .stuck fault left := by
  have stop : Item.scan (token :: rest) = ⟨[], .semicolon, token :: rest⟩ := by
    simp [Item.scan, Item.scanFrom, kind, Stop.ofKind?]
  simp only [itemStep, kind]
  split
  · cases rest with
    | nil => cases closing
    | cons next rest =>
        obtain ⟨_, text⟩ := next
        obtain rfl := beq_iff_eq.mp closing
        exact ⟨_, _, rfl⟩
  · exact ⟨_, _, by rw [prelude_eq, stop]; rfl⟩

theorem itemStep_follows {inline : Bool} {token : Token} {rest rest' : List Token}
    (h : Drops (depthBeyond 0 token.kind) rest rest') (blocks : List Block) :
    Follows (itemStep inline token rest blocks) (itemStep inline token rest' blocks) := by
  have kept : Drops 0 (token :: rest) (token :: rest') := .keep h
  have same := isDeclaration_drops kept inline blocks
  simp only [itemStep]
  split
  case h_1 | h_2 | h_3 =>
    rintro _ _ ⟨⟩
    exact ⟨_, rfl, h.outside⟩
  case h_4 =>
    cases blocks with
    | nil => rintro _ _ ⟨⟩
    | cons block blocks =>
        rintro _ _ ⟨⟩
        exact ⟨_, rfl, h.outside⟩
  case h_5 => exact atRule_follows token h.outside blocks
  case h_6 =>
    rw [same]
    split
    · exact declaration_follows token h.outside blocks
    · exact prelude_follows kept blocks

theorem step_follows {inline : Bool} {s : State} {rest : List Token} (h : Drops 0 s.rest rest) :
    Follows (step inline s) (step inline ⟨rest, s.blocks⟩) := by
  have unread := h.skipTrivial (onlyDeclarations inline s.blocks)
  simp only [step]
  generalize skipTrivial (onlyDeclarations inline s.blocks) s.rest = ts at unread ⊢
  generalize skipTrivial (onlyDeclarations inline s.blocks) rest = us at unread ⊢
  cases unread with
  | nil =>
      cases s.blocks with
      | nil => rintro _ _ ⟨⟩
      | cons block blocks =>
          rintro _ _ ⟨⟩
          exact ⟨[], rfl, .nil⟩
  | keep unread => exact itemStep_follows unread s.blocks
  | drop semicolon closing _ =>
      intro events next yields
      obtain ⟨fault, left, stuck⟩ := @itemStep_closing inline _ _ s.blocks semicolon closing
      cases stuck.symm.trans yields

theorem step_done {inline : Bool} {s : State} (done : step inline s = .done) {rest : List Token}
    (h : Drops 0 s.rest rest) : step inline ⟨rest, s.blocks⟩ = .done := by
  have skipped := h.skipTrivial (onlyDeclarations inline s.blocks)
  have unread : skipTrivial (onlyDeclarations inline s.blocks) s.rest = [] := unread_of_done done
  have blocks := blocks_of_done done
  rw [unread] at skipped
  generalize left : skipTrivial (onlyDeclarations inline s.blocks) rest = us at skipped
  cases skipped
  simp only [step, left]
  rw [blocks]
  rfl

/-- A run that is through hands out the same events over the tokens that are left. -/
theorem run_drops {inline : Bool} {s : State} {events : List Event}
    {stop : Option (SyntaxFault × List Token)} (h : Run inline s events stop) (whole : stop = none)
    {rest : List Token} (dropped : Drops 0 s.rest rest) :
    Run inline ⟨rest, s.blocks⟩ events none := by
  induction h generalizing rest with
  | done done => exact .done (step_done done dropped)
  | stuck _ => cases whole
  | yield yields _ ih =>
      obtain ⟨rest, yields, dropped⟩ := step_follows dropped _ _ yields
      exact .yield yields (ih whole dropped)

theorem reading_eq {r r' : Reading} (events : r.events = r'.events) (error : r.error = r'.error) :
    r = r' := by
  cases r
  cases r'
  cases events
  cases error
  rfl

/-- Without such semicolons styles read the same, events and all. -/
theorem reading_drops {css : Text} {ts us : List Token} (cut : Lexer.tokens css = .ok ts)
    (parses : (Reading.ofText css false).error = none) (dropped : Drops 0 ts us) :
    Reading.ofText (Token.source us) false = Reading.ofText css false := by
  have cut' := tokens_eq_ok_iff.mpr (lexes_drops (tokens_eq_ok_iff.mp cut) dropped)
  obtain ⟨stop, ran, error⟩ := Reading.ofText_run cut false
  obtain ⟨stop', ran', error'⟩ := Reading.ofText_run cut' false
  obtain ⟨events, whole⟩ := ran'.unique (run_drops ran (error.mp parses) dropped)
  exact reading_eq events ((error'.mpr whole).trans parses.symm)

/-- Tokens of which minifying drops no more than semicolons that end an item, from a place on and
with some groups open. Nothing is asked of strings and comments that begin in plain text. -/
def InStep : Place → Nat → List Token → Prop
  | _, _, [] => True
  | place, depth, token :: rest =>
    (place.isPlain = true ∧ (token.kind = .string ∨ token.kind = .comment) ∨
      depth = 0 ∧ token.kind = .semicolon ∨
      place.keeps token.text (Token.source rest) = true) ∧
    InStep (place.after token.text) (depthBeyond depth token.kind) rest

instance decidableInStep : ∀ place depth tokens, Decidable (InStep place depth tokens)
  | _, _, [] => .isTrue trivial
  | place, depth, token :: rest =>
    have := decidableInStep (place.after token.text) (depthBeyond depth token.kind) rest
    inferInstanceAs (Decidable (_ ∧ InStep _ _ rest))

theorem beginsClosing_of_lexes {text : Text} {tokens : List Token}
    (h : Lexes ('\x7d' :: text) tokens) : beginsClosing tokens = true := by
  cases h
  rfl

theorem keeps_of_lexes {text : Text} {tokens : List Token} (h : Lexes text tokens) :
    ∀ token ∈ tokens, token.kind = .string ∨ token.kind = .comment →
      ∀ {place : Place}, place.isPlain = true → ∀ rest, place.keeps token.text rest = true :=
  h.forall_mem (by simp [delim]) fun _ _ _ _ lexed solid _ plain rest =>
    Place.keeps_lexeme lexed solid plain rest

/-- Of tokens in step minifying leaves all but some semicolons in front of a closing brace. -/
theorem exists_drops {ts us : List Token} (h : Lexes (Token.source (ts ++ us)) (ts ++ us))
    {place : Place} {depth : Nat} (inStep : InStep place depth us) :
    ∃ us', Drops depth us us' ∧ place.minified (Token.source us) = Token.source us' := by
  induction us generalizing ts place depth with
  | nil => exact ⟨[], .nil, rfl⟩
  | cons token us ih =>
      obtain ⟨first, others⟩ := inStep
      have shifted : ts ++ token :: us = (ts ++ [token]) ++ us := by simp
      have inner := shifted ▸ h
      obtain ⟨us', dropped, left⟩ := ih inner others
      by_cases kept : place.keeps token.text (Token.source us) = true
      · refine ⟨token :: us', .keep dropped, ?_⟩
        rw [Token.source_cons, Place.minified_append kept, left, Token.source_cons]
      · obtain ⟨rfl, semicolon⟩ : depth = 0 ∧ token.kind = .semicolon := by
          obtain ⟨plain, solid⟩ | ending | keeps := first
          · exact absurd (keeps_of_lexes h token (by simp) solid plain _) kept
          · exact ending
          · exact absurd keeps kept
        obtain ⟨rfl, lexed⟩ := lexes_semicolon h semicolon
        have drops : place.drops (';' :: Token.source us) = true := by
          simpa [Place.keeps] using kept
        have closing : beginsClosing us = true := by
          obtain ⟨_, brace⟩ := Bool.and_eq_true_iff.mp drops
          obtain ⟨more, same⟩ := List.isPrefixOf_iff_prefix.mp brace
          rw [← (List.cons.inj same).2] at lexed
          exact beginsClosing_of_lexes lexed
        exact ⟨us', .drop rfl closing dropped, (if_pos drops).trans left⟩

/-- Minified styles read as the styles do, events and all, where minifying drops no semicolon but of
those that end an item. -/
theorem reading_minify {css : Text} {tokens : List Token} (cut : Lexer.tokens css = .ok tokens)
    (parses : (Reading.ofText css false).error = none) (inStep : InStep .plain 0 tokens) :
    ∃ text, minify (.ofText css) = .ofText text ∧
      Reading.ofText text false = Reading.ofText css false := by
  have lexed := tokens_eq_ok_iff.mp cut
  obtain ⟨us, dropped, left⟩ := @exists_drops [] tokens (lexed.source ▸ lexed) _ _ inStep
  refine ⟨Token.source us, ?_, reading_drops cut parses dropped⟩
  rw [minify_ofText, ← left, lexed.source]

/-- Semicolons in a string, in an address, between declarations and at the end of blocks, and after
an escaped quotation mark. -/
theorem reading_minify_block :
    let css := ("@a b\x7bc:d;--e:(f) ;\x7d.g\\:h,i\x7bj:\";\x7d\" url(k;l);;@m;\x7d" ++
      ".n\\\"\x7bo:p;\x7d").toList
    (Reading.ofText css false).error = none ∧
      ∃ text, minify (.ofText css) = .ofText text ∧
        Reading.ofText text false = Reading.ofText css false := by
  intro css
  have cut : Lexer.tokens css = .ok (rawTokens css) := by decide +kernel
  have parses : (Reading.ofText css false).error = none := by decide +kernel
  exact ⟨parses, reading_minify cut parses (by decide +kernel)⟩

/-- An escaped mark passes for the begin of a string, so a semicolon within the next string goes;
and so do semicolons of an address and of a group. -/
theorem minify_changes_reading :
    let input (text : String) : Convert.Input := ⟨"in.css", .steady (.ofText text.toList), false⟩
    let settings : Convert.Settings := ⟨.inMemory (fun _ => none) none, none⟩
    let changed (text output minified : String) : Prop :=
      (Convert.run settings [input text] none).map Output.text = .ok output.toList ∧
        (Reading.ofText output.toList false).error = none ∧
        minify (.ofText output.toList) = .ofText minified.toList ∧
        (Reading.ofText minified.toList false).events ≠ (Reading.ofText output.toList false).events
    changed ".a\\\"\x7bb:\";\x7d\"\x7d" ".a\\\"\x7bb:\";\x7d\";\x7d" ".a\\\"\x7bb:\"\x7d\";\x7d" ∧
      changed "a\x7bb:url(c;\x7d)\x7d" "a\x7bb:url(c;\x7d);\x7d" "a\x7bb:url(c\x7d)\x7d" ∧
      changed "a\x7b--b:(c;\x7d)\x7d" "a\x7b--b:(c;\x7d);\x7d" "a\x7b--b:(c\x7d)\x7d" := by
  decide +kernel

end UtilityCss.Minify
