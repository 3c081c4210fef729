import UtilityCss.Proofs.Convert.Outcome
import UtilityCss.Proofs.Convert.Purging
import UtilityCss.Proofs.Convert.Writing
import UtilityCss.Proofs.Event.Joining

/-!
Inputs that are cut in two. A walk that has come to the end of a source stands where another one
begins. So where the reading of a source is put together from the readings of two parts, it is
converted to what the parts are converted to, one after the other.
-/
namespace UtilityCss.Convert
open UtilityCss.Parser UtilityCss.Token

section Walk
variable {settings : Settings} {source : String}
  {expand : List Token → Progress → Except Halt Progress}

/-- At the end of a whole word no selector group is waiting for its ruleset. -/
theorem foldlM_afterGroup {inline : Bool} {blocks after : List Block} {events : List Event}
    (word : Nested inline blocks events after) {state state' : Place × Progress}
    (kept : state.1.purged = 0)
    (group : state.1.afterGroup = true → Event.startsSelector events = true)
    (h : events.foldlM (walkEvent settings source none expand) state = .ok state') :
    state'.1.purged = 0 ∧ state'.1.afterGroup = false := by
  induction word generalizing state with
  | nil =>
      cases h
      exact ⟨kept, by simpa [Event.startsSelector] using group⟩
  | cons _ groups _ ih =>
      rw [List.foldlM_cons] at h
      obtain ⟨⟨place, p⟩, step, rest⟩ := bind_eq_ok.mp h
      rw [walkEvent, if_neg (by simp [kept])] at step
      obtain ⟨purged, grouped⟩ := event_unchecked_place step
      rw [afterGroup_direct group] at grouped
      exact ih (purged.trans kept) (fun last => groups (grouped ▸ last)) rest

theorem foldlM_place {inline : Bool} {events : List Event} (word : Nested inline [] events [])
    (expands : ∀ values p, Settles (fun _ => True) (expand values p)) {p : Progress}
    {state : Place × Progress}
    (h : events.foldlM (walkEvent settings source none expand) (.start, p) = .ok state) :
    state.1 = .start := by
  have tracks : state.1.Tracks [] := by
    have settles : Settles (fun state : Place × Progress => state.1.Tracks [])
        (events.foldlM (walkEvent settings source none expand) (.start, p)) :=
      walkEvents_settle expands word Place.tracks_start
    rwa [h] at settles
  obtain ⟨purged, grouped⟩ := foldlM_afterGroup word rfl (by simp [Place.start]) h
  have depth : state.1.depth = 0 := by simpa using tracks.depth
  show (⟨state.1.depth, state.1.purged, state.1.afterGroup⟩ : Place) = ⟨0, 0, false⟩
  rw [depth, purged, grouped]

/-- A walk of events that are put together is the walk of the first, which come to an end without
an error, and then of the others. -/
theorem walkReading_append {first second whole : Reading} {inline : Bool}
    (word : Nested inline [] first.events []) (parses : first.error = none)
    (events : whole.events = first.events ++ second.events)
    (error : whole.error.isSome = second.error.isSome)
    (expands : ∀ values p, Settles (fun _ => True) (expand values p)) (p : Progress) :
    (walkReading settings source none expand whole p).toOption =
      (walkReading settings source none expand first p >>=
        walkReading settings source none expand second).toOption := by
  rw [walkReading, walkReading, events, List.foldlM_append, parses, bind_assoc, bind_assoc]
  cases walked : first.events.foldlM (walkEvent settings source none expand) (.start, p) with
  | error halt => rfl
  | ok state =>
      obtain ⟨place, p'⟩ := state
      obtain rfl : place = .start := foldlM_place word expands walked
      have others := toOption_bind_congr (x := second.events.foldlM
        (walkEvent settings source none expand) (.start, p')) rfl
        (finish_outcome source source error)
      exact others

end Walk

theorem walk_append {settings : Settings} {first second whole : Reading} {inline : Bool}
    (word : Nested inline [] first.events []) (parses : first.error = none)
    (events : whole.events = first.events ++ second.events)
    (error : whole.error.isSome = second.error.isSome) (budget : Nat)
    (source left right : String) (p : Progress) :
    (walk settings wholeSection budget source none whole p).toOption =
      (walk settings wholeSection budget left none first p >>=
        walk settings wholeSection budget right none second).toOption := by
  have same := Interchangeable.refl settings
  have renamed := toOption_bind_congr (same.walk source left wholeSection budget none first p)
    (same.walk source right wholeSection budget none second)
  rw [← renamed]
  cases budget with
  | zero => rfl
  | succ budget =>
      refine walkReading_append word parses events error (fun values p => ?_) p
      refine (sectionOf_settles source values).bind fun part _ => ?_
      refine (readSection_settles settings source part p).bind fun css _ => ?_
      exact walk_settles settings (fun _ css => nests_ofText css false) budget _ _
        (nests_ofText css false) p

/-- A stylesheet that reads the same whatever has been output by then. -/
structure Input.Holds (input : Input) (css : Text) : Prop where
  text : ∀ sent, input.source.text sent = .ok css
  inline : input.inline = false

theorem walkInput_of_holds {input : Input} {css : Text} (h : input.Holds css) (settings : Settings)
    (read : SectionReader) (budget : Nat) (p : Progress) :
    walkInput settings read budget p input =
      walk settings read budget input.name none (Reading.ofText css false) p := by
  rw [walkInput, h.text, h.inline]

/-- A source that ends with the end of its last item and leaves no group open in any may be put in
front of any other that is cut into tokens: what is read of the two is what is read of each, and it
makes no difference to the output whether they are one input or two. -/
theorem run_append {first second : Text} {tokens others : List Token}
    (cut : Lexer.tokens first = .ok tokens) (parses : (Reading.ofText first false).error = none)
    (balanced : ∀ t ∈ trace false ⟨tokens, []⟩, t.Balanced)
    (final : ∃ t ∈ (trace false ⟨tokens, []⟩).getLast?, t.Final)
    (cut' : Lexer.tokens second = .ok others) :
    (Reading.ofText (first ++ second) false).events =
        (Reading.ofText first false).events ++ (Reading.ofText second false).events ∧
      (Reading.ofText (first ++ second) false).error.map (·.fault) =
        (Reading.ofText second false).error.map (·.fault) ∧
      ∀ (settings : Settings) (front back : List Input) (room : Option Room)
        (whole left right : Input), whole.Holds (first ++ second) → left.Holds first →
        right.Holds second →
        (run settings (front ++ whole :: back) room).toOption =
          (run settings (front ++ left :: right :: back) room).toOption := by
  obtain ⟨events, faults⟩ := Reading.ofText_append cut parses balanced final cut'
  refine ⟨events, faults, fun settings front back room whole left right hold₀ hold₁ hold₂ => ?_⟩
  have error : (Reading.ofText (first ++ second) false).error.isSome =
      (Reading.ofText second false).error.isSome := by
    simpa using congrArg Option.isSome faults
  obtain ⟨blocks, word, closed⟩ := Reading.nested first false
  obtain rfl := closed parses
  refine toOption_bind_congr ?_ fun _ => rfl
  rw [List.foldlM_append, List.foldlM_append]
  refine toOption_bind_congr rfl fun p => ?_
  simp only [List.foldlM_cons, ← bind_assoc]
  refine toOption_bind_congr ?_ fun _ => rfl
  rw [walkInput_of_holds hold₀, walkInput_of_holds hold₁]
  refine (walk_append word parses events error walkBudget _ left.name right.name p).trans ?_
  refine toOption_bind_congr rfl fun q => ?_
  rw [walkInput_of_holds hold₂]

/-- A ruleset and a statement with a group in front of another ruleset. -/
theorem run_append_ruleset :
    let first : Text := ".a\x7bb:c\x7d@d (e;);".toList
    let second : Text := ".f\x7bg:h\x7d".toList
    let input (css : Text) : Input := ⟨"in", .steady (.ofText css), false⟩
    let settings : Settings := ⟨.inMemory (fun _ => none) none, none⟩
    (Reading.ofText (first ++ second) false).events =
        (Reading.ofText first false).events ++ (Reading.ofText second false).events ∧
      (run settings [input (first ++ second)] none).toOption =
        (run settings [input first, input second] none).toOption := by
  intro first second input settings
  obtain ⟨tokens, cut, parses, balanced, final⟩ : ∃ tokens, Lexer.tokens first = .ok tokens ∧
      (Reading.ofText first false).error = none ∧
      (∀ t ∈ trace false ⟨tokens, []⟩, t.Balanced) ∧
      ∃ t ∈ (trace false ⟨tokens, []⟩).getLast?, t.Final := by
    refine ⟨[⟨.delim, ['.']⟩, ⟨.ident, ['a']⟩, leftBrace, ⟨.ident, ['b']⟩, colon, ⟨.ident, ['c']⟩,
      rightBrace, ⟨.atKeyword, ['@', 'd']⟩, ⟨.whitespace, [' ']⟩, ⟨.leftParen, ['(']⟩,
      ⟨.ident, ['e']⟩, semicolon, ⟨.rightParen, [')']⟩, semicolon], ?_, ?_, ?_, ?_⟩ <;>
      decide +kernel
  have cut' : Lexer.tokens second = .ok [⟨.delim, ['.']⟩, ⟨.ident, ['f']⟩, leftBrace,
      ⟨.ident, ['g']⟩, colon, ⟨.ident, ['h']⟩, rightBrace] := by decide +kernel
  obtain ⟨events, _, split⟩ := run_append cut parses balanced final cut'
  have holds (css : Text) (text : (Feed.ofText css).text = .ok css) : (input css).Holds css :=
    ⟨fun _ => text, rfl⟩
  refine ⟨events, split settings [] [] none _ _ _ (holds _ ?_) (holds _ ?_) (holds _ ?_)⟩
  all_goals decide +kernel

end UtilityCss.Convert
