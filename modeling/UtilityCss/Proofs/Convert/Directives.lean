import UtilityCss.Proofs.Apply.Declaring
import UtilityCss.Proofs.Convert.Rendering
import UtilityCss.Proofs.Event.Surfacing

/-!
Directives do not come up in the output. All that is written ends with a mark and can stand in front
of anything without a directive coming up, and so can what is written one after the other: the
events of inputs and sections, and the declarations that utilities are applied as. The exception is
an at-rule with a block, which is copied whatever its name.
-/
namespace UtilityCss

namespace Convert
open UtilityCss.Parser UtilityCss.Lexer

variable {copied : Text → List Token → Prop}

/-- A text that can be written in front of any other without a directive coming up. -/
def Sound (copied : Text → List Token → Prop) (text : Text) : Prop :=
  ∃ ts, Ended ts ∧ Lexes text ts ∧ KeepsQuiet isDirectiveName copied ts

theorem Sound.nil : Sound copied [] :=
  ⟨[], nofun, .nil, fun _ quiet => quiet⟩

theorem Sound.append {a b : Text} (ha : Sound copied a) (hb : Sound copied b) :
    Sound copied (a ++ b) := by
  obtain ⟨ts, ended, lexed, quiet⟩ := ha
  obtain ⟨us, ended', lexed', quiet'⟩ := hb
  exact ⟨ts ++ us, ended.append ended', (lexes_append_iff ended lexed.source).mpr ⟨lexed, lexed'⟩,
    quiet.append quiet'⟩

theorem Sound.flatten {pieces : List Text} (h : ∀ piece ∈ pieces, Sound copied piece) :
    Sound copied pieces.flatten := by
  induction pieces with
  | nil => exact .nil
  | cons piece pieces ih =>
      obtain ⟨first, others⟩ := List.forall_mem_cons.mp h
      exact first.append (ih others)

/-- No directive comes up where a sound text is read. -/
theorem Sound.allowed {text : Text} (h : Sound copied text) (inline : Bool) :
    ∀ e ∈ (Reading.ofText text inline).events, Allowed isDirectiveName copied e := by
  obtain ⟨ts, _, lexed, quiet⟩ := h
  obtain ⟨stop, hrun, _⟩ := Reading.ofText_run (tokens_eq_ok_iff.mpr lexed) inline
  have whole := quiet [] .nil
  rw [List.append_nil] at whole
  exact hrun.allowed whole

/-- An event of a source that can be written as it is read: its text is cut into the tokens that it
is read as, and its selector hides no directive. -/
structure Plain (css : Text) (inline : Bool) (e : Event) : Prop where
  kept : ∃ tokens, Lexer.tokens css = .ok tokens ∧
    ∃ t ∈ trace inline ⟨tokens, []⟩, t.event = e ∧ t.Kept
  selector : ∀ token ∈ selectorOf e, isBarred isDirectiveName token = false

instance (css : Text) (inline : Bool) (e : Event) : Decidable (Plain css inline e) :=
  match cut : Lexer.tokens css with
  | .error _ => .isFalse fun ⟨⟨_, found, _⟩, _⟩ => by simp [cut] at found
  | .ok tokens => decidable_of_iff
      ((∃ t ∈ trace inline ⟨tokens, []⟩, t.event = e ∧ t.Kept) ∧
        ∀ token ∈ selectorOf e, isBarred isDirectiveName token = false)
      ⟨fun ⟨kept, selector⟩ => ⟨⟨tokens, cut, kept⟩, selector⟩,
        fun ⟨⟨_, found, kept⟩, selector⟩ => by cases cut.symm.trans found; exact ⟨kept, selector⟩⟩

theorem Plain.sound {css : Text} {inline : Bool} {e : Event} (plain : Plain css inline e)
    (direct : isDirectiveEvent e = false)
    (copies : ∀ name values, e = .beginAtRule name values → copied name values) :
    Sound copied e.written := by
  have writable : Writable isDirectiveName copied e := by
    refine ⟨?_, plain.selector⟩
    cases e with
    | atRule name values => exact direct
    | beginAtRule name values => exact fun _ => copies name values rfl
    | _ => trivial
  obtain ⟨tokens, _, t, traced, rfl, kept⟩ := plain.kept
  obtain ⟨_, _, _, _, reads, read⟩ := mem_trace traced
  exact ⟨t.written, t.written_ended, tokens_eq_ok_iff.mp kept, reads.keepsQuiet read writable⟩

/-- The ruleset of a stylesheet that a class stands for: the last one that it holds for it. -/
def Provides (css : Text) (name : Text) (rule : Rule) : Prop :=
  ∃ before after, Holds (Reading.ofText css false).events (before ++ rule :: after) ∧
    rule.selectors.getLast? = some (classSelector name) ∧
    ∀ later ∈ after, later.selectors.getLast? ≠ some (classSelector name)

theorem Provides.isDeclared {css name : Text} {rule : Rule} (h : Provides css name rule) :
    ∀ e ∈ rule.declared, e.isDeclared = true := by
  obtain ⟨before, after, holds, -, -⟩ := h
  exact holds.isDeclared rule (List.mem_append_right _ List.mem_cons_self)

theorem exists_provides_of_get? {source : String} {css : Text} {index : ApplyIndex}
    (indexed : ApplyIndex.ofStyles source css = .ok index) {name body : Text}
    (found : index.get? name = some body) :
    ∃ rule, Provides css name rule ∧ body = Text.trim (rule.declared.flatMap Event.written) := by
  obtain ⟨⟨rules, holds⟩, bodies⟩ := ApplyIndex.get?_of_ofStyles indexed
  obtain ⟨before, rule, after, rfl, last, newest, body⟩ := (bodies rules holds name body).mp found
  exact ⟨rule, ⟨before, after, holds, last, newest⟩, body⟩

/-- A ruleset whose declarations can be applied as they are read: each can be written, and no blank
in front of them is lost. -/
structure Applicable (css : Text) (rule : Rule) : Prop where
  plain : ∀ e ∈ rule.declared, Plain css false e
  first : ∀ c ∈ (rule.declared.flatMap Event.written).head?, Text.isBlank c = false

instance (css : Text) (rule : Rule) : Decidable (Applicable css rule) :=
  decidable_of_iff
    ((∀ e ∈ rule.declared, Plain css false e) ∧
      (rule.declared.flatMap Event.written).head?.all (!Text.isBlank ·) = true)
    ⟨fun ⟨plain, first⟩ => ⟨plain, by simpa [Option.all_eq_true] using first⟩,
      fun ⟨plain, first⟩ => ⟨plain, by simpa [Option.all_eq_true] using first⟩⟩

theorem getLast?_written {e : Event} (declared : e.isDeclared = true) :
    e.written.getLast? = some ';' := by
  cases e with
  | declaration name values =>
      rw [Event.written_declaration]
      exact List.getLast?_concat
  | customProperty name raw =>
      rw [Event.written_customProperty]
      exact List.getLast?_concat
  | _ => cases declared

theorem Applicable.sound {css : Text} {rule : Rule} (h : Applicable css rule)
    (declared : ∀ e ∈ rule.declared, e.isDeclared = true) :
    Sound copied (Text.trim (rule.declared.flatMap Event.written)) := by
  have last : ∀ c ∈ (rule.declared.flatMap Event.written).getLast?, Text.isBlank c = false := by
    intro c found
    obtain none | ⟨front, e, whole⟩ := rule.declared.eq_nil_or_concat'
    · rw [none] at found
      cases found
    · have mark : e.written.getLast? = some ';' := getLast?_written (declared e (by simp [whole]))
      rw [whole, List.flatMap_append, List.flatMap_singleton, List.getLast?_append, mark] at found
      cases found
      rfl
  rw [Text.trim_eq_self h.first last]
  refine Sound.flatten fun piece inside => ?_
  obtain ⟨e, here, rfl⟩ := List.mem_map.mp inside
  have declares := declared e here
  refine (h.plain e here).sound ?_ ?_
  · cases e <;> first | rfl | cases declares
  · rintro name values rfl
    cases declares

theorem sound_apply {index : ApplyIndex} {names : List Text}
    (sound : ∀ name ∈ names, ∀ body, index.get? name = some body → Sound copied body) {css : Text}
    (applied : index.apply names = .ok css) : Sound copied css := by
  obtain ⟨bodies, found, same⟩ := bind_eq_ok.mp applied
  cases same
  refine Sound.flatten fun body inside => ?_
  obtain ⟨name, named, first⟩ := exists_of_mem_mapM found inside
  split at first <;> cases first
  next known => exact sound name named body known

/-- The words that a run walks: those of its inputs, and of the sections that a directive in such a
word asks for, less the rulesets that the checker gives up. -/
inductive IsWalked (settings : Settings) (inputs : List Input) : Text → Bool → List Event → Prop
  | input {input sent css} : input ∈ inputs → input.source.text sent = .ok css →
      IsWalked settings inputs css input.inline (Reading.ofText css input.inline).events
  | expanded {css inline events name values source part sent css'} :
      IsWalked settings inputs css inline events → .atRule name values ∈ events →
      isDirective "@tailwind" name = true → sectionOf source values = .ok part →
      settings.dist.read part sent = .ok css' →
      IsWalked settings inputs css' false (sectionReader settings part css').events

/-- An event that is put out as it stands. -/
def IsWritten (settings : Settings) (inputs : List Input) (css : Text) (inline : Bool) (e : Event) :
    Prop :=
  isDirectiveEvent e = false ∧ ∃ events, IsWalked settings inputs css inline events ∧ e ∈ events

/-- A ruleset of the utilities that an `@apply` in a walked word takes the declarations of. -/
def IsApplied (settings : Settings) (inputs : List Input) (css : Text) (rule : Rule) : Prop :=
  ∃ text inline events name values source names sent,
    IsWalked settings inputs text inline events ∧ .atRule name values ∈ events ∧
    isDirective "@apply" name = true ∧ namesOf source values = .ok names ∧
    settings.dist.read .utilities sent = .ok css ∧ ∃ name ∈ names, Provides css name rule

section Run
variable {settings : Settings} {inputs : List Input}
  (plain : ∀ css inline e, IsWritten settings inputs css inline e → Plain css inline e)
  (applicable : ∀ css rule, IsApplied settings inputs css rule → Applicable css rule)
  (copies : ∀ css inline name values,
    IsWritten settings inputs css inline (.beginAtRule name values) → copied name values)
include plain applicable copies

/-- What walked events come to can be written, whatever they take from the distribution. -/
theorem Renders.sound {events : List Event} {text : Text}
    (h : Renders settings.dist (sectionReader settings) events text) {css : Text} {inline : Bool}
    {word : List Event} (walked : IsWalked settings inputs css inline word)
    (part : events ⊆ word) : Sound copied text := by
  induction h generalizing css inline word with
  | nil => exact .nil
  | written direct _ ih =>
      obtain ⟨here, others⟩ := List.cons_subset.mp part
      have written := plain css inline _ ⟨direct, word, walked, here⟩
      refine (written.sound direct ?_).append (ih walked others)
      rintro name values rfl
      exact copies css inline name values ⟨direct, word, walked, here⟩
  | expanded named asked read _ _ ihBody ih =>
      obtain ⟨here, others⟩ := List.cons_subset.mp part
      have found := ihBody (walked.expanded here named asked read) (List.Subset.refl _)
      exact found.append (ih walked others)
  | @applied name values source names sent index body rest text named asked made bodies _ ih =>
      obtain ⟨here, others⟩ := List.cons_subset.mp part
      refine (sound_apply (fun name listed body found => ?_) bodies).append (ih walked others)
      simp only [ApplyIndex.ofDistribution] at made
      split at made
      · cases made
      next utilities read =>
        obtain ⟨rule, provides, rfl⟩ := exists_provides_of_get? made found
        have applies : IsApplied settings inputs utilities rule :=
          ⟨css, inline, word, _, values, source, names, sent, walked, here, named, asked, read,
            name, listed, provides⟩
        exact (applicable utilities rule applies).sound provides.isDeclared

/-- A run has an output without directives if all it writes and applies can be written as it is
read. -/
theorem sound_of_renders {texts : List Text}
    (h : List.Forall₂ (Input.Renders settings) inputs texts) : Sound copied texts.flatten := by
  refine Sound.flatten fun text inside => ?_
  obtain ⟨input, listed, sent, css, read, renders⟩ := exists_input_of_mem h inside
  exact renders.sound plain applicable copies (.input listed read) (List.Subset.refl _)

end Run

/-- The output is what the inputs come to, so a directive is expanded or the run fails. Where all
that is written or applied can be written as it is read, the output reads without a directive, and
every block in it that is named like one is a block that was written. -/
theorem output_directive_free {settings : Settings} {budget : Nat} {inputs : List Input}
    {room : Option Room} {output : Output}
    (ran : runWith settings wholeSection budget inputs room = .ok output) :
    (∃ texts, List.Forall₂ (Input.Renders settings) inputs texts ∧ output.text = texts.flatten) ∧
      ((∀ css inline e, IsWritten settings inputs css inline e → Plain css inline e) →
        (∀ css rule, IsApplied settings inputs css rule → Applicable css rule) →
        ∀ inline, ∀ e ∈ (Reading.ofText output.text inline).events, isDirectiveEvent e = false ∧
          ∀ name values, e = .beginAtRule name values → isDirectiveName name = true →
            ∃ css inline, IsWritten settings inputs css inline e) := by
  obtain ⟨texts, renders, text⟩ := runWith_renders ran
  refine ⟨⟨texts, renders, text⟩, fun plain applicable inline e inside => ?_⟩
  have sound : Sound (fun name values => ∃ css inline, IsWritten settings inputs css inline
      (.beginAtRule name values)) output.text :=
    text ▸ sound_of_renders plain applicable (fun css inline _ _ found => ⟨css, inline, found⟩)
      renders
  have allowed := sound.allowed inline e inside
  constructor
  · cases e with
    | atRule name values => exact allowed
    | _ => rfl
  · rintro name values rfl named
    exact allowed named

/-- An applied utility in a ruleset beside one that is copied. The utility that is given up could
not be written as it is read. -/
theorem output_directive_free_applied :
    let utilities : Text := ".x\x7bc:d\x7d.z\x7bc:e/**/f\x7d".toList
    let dist : Distribution :=
      .inMemory (fun part => if part = .utilities then some utilities else none) none
    let settings : Settings := ⟨dist, some (· == "z")⟩
    let inputs : List Input :=
      [⟨"in.css", .steady (.ofText "@tailwind utilities;.y\x7b@apply x;\x7d".toList), false⟩]
    ∃ output, runWith settings wholeSection walkBudget inputs none = .ok output ∧
      output.text = ".x\x7bc:d;\x7d.y\x7bc:d;\x7d".toList ∧
      ¬ Plain utilities false (.declaration ['c'] [⟨.ident, ['e']⟩, ⟨.ident, ['f']⟩]) ∧
      (∃ texts, List.Forall₂ (Input.Renders settings) inputs texts ∧
        output.text = texts.flatten) ∧
      ∀ e ∈ (Reading.ofText output.text false).events, isDirectiveEvent e = false ∧
        ∀ name values, e = .beginAtRule name values → isDirectiveName name = true →
          ∃ css inline, IsWritten settings inputs css inline e := by
  intro utilities dist settings inputs
  have written : (runWith settings wholeSection walkBudget inputs none).map Output.text =
      .ok ".x\x7bc:d;\x7d.y\x7bc:d;\x7d".toList := by decide +kernel
  have contents {part : Section} {sent : List Text} {css : Text}
      (read : dist.read part sent = .ok css) : part = .utilities ∧ css = utilities := by
    cases part with
    | base | components => cases read
    | utilities =>
        have same : dist.read .utilities sent = dist.read .utilities [] := rfl
        have found : dist.read .utilities [] = .ok utilities := by decide +kernel
        exact ⟨rfl, Except.ok.inj (read.symm.trans (same.trans found))⟩
  let source : Text := "@tailwind utilities;.y\x7b@apply x;\x7d".toList
  let walks : List (Text × Bool × List Event) :=
    [(source, false, (Reading.ofText source false).events),
      (utilities, false, (sectionReader settings .utilities utilities).events)]
  have walked (css : Text) (inline : Bool) (events : List Event)
      (h : IsWalked settings inputs css inline events) : (css, inline, events) ∈ walks := by
    cases h with
    | @input _ sent _ listed read =>
        cases List.mem_singleton.mp listed
        have same : (Source.steady (.ofText source)).text sent =
          (Source.steady (.ofText source)).text [] := rfl
        have found : (Source.steady (.ofText source)).text [] = .ok source := by decide +kernel
        cases read.symm.trans (same.trans found)
        exact List.mem_cons_self
    | expanded _ _ _ _ read =>
        obtain ⟨rfl, rfl⟩ := contents read
        exact List.mem_cons_of_mem _ List.mem_cons_self
  have plain (css : Text) (inline : Bool) (e : Event)
      (h : IsWritten settings inputs css inline e) : Plain css inline e := by
    have all : ∀ w ∈ walks, ∀ e ∈ w.2.2, isDirectiveEvent e = false → Plain w.1 w.2.1 e := by
      decide +kernel
    obtain ⟨direct, events, part, inside⟩ := h
    exact all _ (walked css inline events part) e inside direct
  have applicable (css : Text) (rule : Rule) (h : IsApplied settings inputs css rule) :
      Applicable css rule := by
    have directives : ∀ w ∈ walks, ∀ e ∈ w.2.2, isDirectiveEvent e = true →
        e = .atRule "@tailwind".toList [⟨.whitespace, [' ']⟩, ⟨.ident, "utilities".toList⟩] ∨
          e = .atRule "@apply".toList [⟨.whitespace, [' ']⟩, ⟨.ident, ['x']⟩] := by
      decide +kernel
    have rules : ∀ rule ∈ Event.outerRules 0 [] (Reading.ofText utilities false).events,
        rule.selectors.getLast? = some (classSelector ['x']) → Applicable utilities rule := by
      decide +kernel
    obtain ⟨text, inline, events, name, values, file, names, sent, part, inside, named, asked, read,
      key, listed, before, after, holds, last, -⟩ := h
    obtain ⟨-, rfl⟩ := contents read
    have direct : isDirectiveEvent (.atRule name values) = true := by
      simp [isDirectiveEvent, isDirectiveName, named]
    obtain same | same := directives _ (walked text inline events part) _ inside direct
    · cases same
      exact absurd named (by decide)
    · cases same
      have asks : namesOf file [⟨.whitespace, [' ']⟩, ⟨.ident, ['x']⟩] = .ok [['x']] := rfl
      cases asked.symm.trans asks
      cases List.mem_singleton.mp listed
      refine rules rule ?_ last
      rw [holds.outerRules_eq]
      exact List.mem_append_right _ List.mem_cons_self
  cases ran : runWith settings wholeSection walkBudget inputs none with
  | error halt =>
      rw [ran] at written
      cases written
  | ok output =>
      rw [ran] at written
      obtain ⟨renders, free⟩ := output_directive_free ran
      exact ⟨output, rfl, Except.ok.inj written, by decide +kernel, renders,
        free plain applicable false⟩

/-- Ways a directive gets into the output: as a block, which is copied; from a selector that reads
as statements in the ruleset its section is put in; and where tokens that stand next to each other
make another one, since the comment between them or the blank in front of them is gone. -/
theorem directives_surface :
    let reads (part : Section → String) (css : String) : Except Halt (List Event × Bool) :=
      let settings : Settings := ⟨.inMemory (fun name => some (part name).toList) none, none⟩
      (run settings [⟨"in.css", .steady (.ofText css.toList), false⟩] none).map fun output =>
        ((Reading.ofText output.text false).events, (Reading.ofText output.text false).error.isNone)
    let space : Token := ⟨.whitespace, [' ']⟩
    let base : Token := ⟨.ident, "base".toList⟩
    let components : Section → String
      | .components => "( : ; @tailwind base; @foo )\x7bx:y\x7d"
      | _ => ""
    let utilities : Section → String
      | .utilities => ".x\x7b\u00a0url(:;\x7d"
      | _ => ""
    reads (fun _ => "") "@tailwind base\x7b\x7d" =
        .ok ([.beginAtRule "@tailwind".toList [space, base], .endAtRule], true) ∧
      reads components "a\x7b@tailwind components;\x7d" =
        .ok ([.beginRuleset [⟨.ident, ['a']⟩], .declaration ['('] [],
          .atRule "@tailwind".toList [space, base],
          .beginAtRule "@foo".toList [space, ⟨.rightParen, [')']⟩],
          .declaration ['x'] [⟨.ident, ['y']⟩], .endAtRule, .endRuleset], true) ∧
      reads (fun _ => "") "a\x7bb:url/**/(x ;@apply y;c:d)\x7d" =
        .ok ([.beginRuleset [⟨.ident, ['a']⟩], .declaration ['b'] ("url(x ".toList.map Lexer.delim),
          .atRule "@apply".toList [space, ⟨.ident, ['y']⟩],
          .declaration ['c'] [⟨.ident, ['d']⟩, ⟨.rightParen, [')']⟩], .endRuleset], true) ∧
      reads utilities "@m\x7b@apply x;b\x7bc:[ \x7b@apply q;@n\x7bd:e" =
        .ok ([.beginAtRule "@m".toList [],
          .beginRuleset ("url(:;b\x7bc:[ ".toList.map Lexer.delim),
          .atRule "@apply".toList [space, ⟨.ident, ['q']⟩], .beginAtRule "@n".toList [],
          .declaration ['d'] [⟨.ident, ['e']⟩], .endAtRule, .endRuleset, .endAtRule], true) := by
  decide +kernel

end Convert
end UtilityCss
