import UtilityCss.Convert.Remains
import UtilityCss.Proofs.Convert.Lockstep
import UtilityCss.Proofs.Convert.Rendering

/-!
What a conversion leaves behind. Where a run ends well its remains are its output, and what it has
put out once stays there, whatever the inputs after it come to. The octets that the buffer hands
over are those of the pieces that are written, in order and without a gap.
-/
namespace UtilityCss

namespace Output
open UtilityCss.Octets

/-- What the destination has got. -/
def sentText (o : Output) : Text :=
  o.sent.reverse.flatten

theorem text_eq (o : Output) : o.text = o.sentText ++ o.held.reverse.flatten := by
  simp [text, sentText]

theorem send_text {o o' : Output} {pieces : List Text} {size : Nat}
    (h : o.send pieces size = .ok o') : o'.sentText = o.sentText ++ pieces.reverse.flatten := by
  cases send_eq h
  simp [sentText]

theorem flush_drains {o o' : Output} (h : o.flush = .ok o') :
    ofText o'.sentText = ofText o.sentText ++ o.drains.flatMap (·.octets) := by
  rw [flush] at h
  rw [drains]
  split at h
  next none =>
    cases h
    rw [if_pos none]
    exact (List.append_nil _).symm
  next held =>
    obtain ⟨o₁, sent, same⟩ := bind_eq_ok.mp h
    cases same
    have text : ofText o₁.sentText = _ := congrArg ofText (send_text sent)
    rw [if_neg held, List.flatMap_singleton, ← ofText_append]
    exact text

/-- What is handed over comes after what was sent by then. -/
theorem write_hands {o o' : Output} {piece : Text} (h : o.write piece = .ok o') :
    ofText o'.sentText = ofText o.sentText ++ (o.hands piece).flatMap (·.octets) := by
  have full {o : Output} (h : (if capacity ≤ piece.size then o.send [piece] piece.size
      else pure (o.hold piece)) = .ok o') : ofText o'.sentText = ofText o.sentText ++
        (if capacity ≤ piece.size then [Handing.mk (ofText piece) []] else []).flatMap
          (·.octets) := by
    split at h
    next large =>
      rw [if_pos large, send_text h, ofText_append]
      simp
    next small =>
      cases h
      rw [if_neg small]
      exact (List.append_nil _).symm
  simp only [write] at h
  rw [hands]
  split at h
  next small =>
    cases h
    rw [if_pos small]
    exact (List.append_nil _).symm
  next large =>
    rw [if_neg large, List.flatMap_append, ← List.append_assoc]
    split at h
    next exceeds =>
      obtain ⟨o₁, flushed, rest⟩ := bind_eq_ok.mp h
      rw [if_pos exceeds, ← flush_drains flushed]
      exact full rest
    next fits =>
      rw [if_neg fits, List.flatMap_nil, List.append_nil]
      exact full h

/-- What a buffer has taken, with what it has handed over of it. -/
structure Handed (state : Output × List Handing) (taken : Text) : Prop where
  free : state.1.room = none
  counted : state.1.Counted
  handed : ofText state.1.sentText = state.2.flatMap (·.octets)
  text : state.1.text = taken

theorem Handed.replayOne {state : Output × List Handing} {taken : Text} (h : Handed state taken)
    (piece : Text) : Handed (replayOne state piece) (taken ++ piece) := by
  obtain ⟨o', written, free⟩ := write_unlimited h.free piece
  obtain ⟨counted, text⟩ := write_text h.counted written
  have next : Output.replayOne state piece = (o', state.2 ++ state.1.hands piece) := by
    simp [Output.replayOne, written, Except.toOption]
  rw [next]
  exact ⟨free, counted, by rw [List.flatMap_append, ← h.handed, write_hands written],
    by rw [text, h.text]⟩

theorem Handed.foldl {state : Output × List Handing} {taken : Text} (h : Handed state taken)
    (pieces : List Text) :
    Handed (pieces.foldl Output.replayOne state) (taken ++ pieces.flatten) := by
  induction pieces generalizing state taken with
  | nil => simpa using h
  | cons piece pieces ih =>
      rw [List.flatten_cons, ← List.append_assoc]
      exact ih (h.replayOne piece)

theorem replay_handed (pieces : List Text) : Handed (replay pieces) pieces.flatten :=
  have start : Handed (.start none, []) [] := ⟨rfl, start_counted none, rfl, rfl⟩
  start.foldl pieces

/-- With a last flush all octets of the pieces are handed over. -/
theorem replay_octets (pieces : List Text) :
    ((replay pieces).2 ++ (replay pieces).1.drains).flatMap (·.octets) = ofText pieces.flatten := by
  have handed := replay_handed pieces
  obtain ⟨o', flushed, -⟩ := flush_unlimited handed.free
  obtain ⟨-, text, none⟩ := flush_text handed.counted flushed
  rw [List.flatMap_append, ← handed.handed, ← flush_drains flushed, ← handed.text, ← text, text_eq,
    none, List.append_nil]

/-- Pieces that the buffer can hold are held. -/
theorem foldl_replayOne_of_fits {o : Output} {pieces : List Text}
    (fits : o.heldSize + Text.size pieces.flatten < capacity) (handed : List Handing) :
    pieces.foldl replayOne (o, handed) =
      ({ o with
        held := pieces.reverse ++ o.held
        heldSize := o.heldSize + Text.size pieces.flatten }, handed) := by
  induction pieces generalizing o with
  | nil => rfl
  | cons piece pieces ih =>
      rw [List.flatten_cons, Text.size_append] at fits
      have small : o.heldSize + piece.size < capacity := by omega
      have one : replayOne (o, handed) piece = (o.hold piece, handed) := by
        simp [replayOne, write, hands, small, Except.toOption]
      have others : (o.hold piece).heldSize + Text.size pieces.flatten < capacity := by
        simp only [hold]
        omega
      rw [List.foldl_cons, one, ih others]
      simp [hold, Text.size_append, Nat.add_assoc]

/-- Pieces that the buffer can hold are handed over at once. -/
theorem replay_of_fits {pieces : List Text} (fits : Text.size pieces.flatten < capacity)
    (filled : pieces.flatten ≠ []) :
    ((replay pieces).2 ++ (replay pieces).1.drains).map (·.octets) = [ofText pieces.flatten] := by
  have some : Text.size pieces.flatten ≠ 0 := mt Text.eq_nil_of_size filled
  rw [replay, foldl_replayOne_of_fits (by simpa [start] using fits)]
  simp [start, drains, some]

end Output

namespace Convert

section Stopping
variable {ε α β : Type} {step : α → β → Except ε α}

theorem stoppedAt_append {a a' : α} {before : List β} (passed : before.foldlM step a = .ok a')
    (items : List β) : stoppedAt step a (before ++ items) = stoppedAt step a' items := by
  induction before generalizing a with
  | nil =>
      cases passed
      rfl
  | cons item before ih =>
      rw [List.foldlM_cons] at passed
      obtain ⟨b, taken, rest⟩ := bind_eq_ok.mp passed
      rw [List.cons_append, stoppedAt, taken]
      exact ih rest

theorem stoppedAt_of_ok {a a' : α} {items : List β} (passed : items.foldlM step a = .ok a') :
    stoppedAt step a items = (a', []) := by
  have whole := stoppedAt_append passed []
  rwa [List.append_nil] at whole

theorem foldlM_stoppedAt (step : α → β → Except ε α) (a : α) (items : List β) :
    ∃ before, before ++ (stoppedAt step a items).2 = items ∧
      before.foldlM step a = .ok (stoppedAt step a items).1 := by
  induction items generalizing a with
  | nil => exact ⟨[], rfl, rfl⟩
  | cons item items ih =>
      rw [stoppedAt]
      split
      next b taken =>
        obtain ⟨before, split, passed⟩ := ih b
        refine ⟨item :: before, congrArg (item :: ·) split, ?_⟩
        rw [List.foldlM_cons, taken]
        exact passed
      next => exact ⟨[], rfl, rfl⟩

end Stopping

/-- A walk that comes to its end gets as far as it goes. -/
theorem reach_of_walk {settings : Settings} {read : SectionReader} {budget : Nat} {source : String}
    {checker : Option (String → Bool)} {reading : Reading} {p p' : Progress}
    (h : walk settings read budget source checker reading p = .ok p') :
    reach settings read budget source checker reading p = p' := by
  cases budget with
  | zero => cases h
  | succ budget =>
      obtain ⟨state, walked, finished⟩ := bind_eq_ok.mp h
      simp only [reach]
      rw [stoppedAt_of_ok walked]
      exact of_finish_ok finished

/-- One progress, whose output goes on from some text. -/
structure Grown (front : Text) (p q : Progress) : Prop where
  same : p = q
  counted : p.output.Counted
  front : front <+: p.output.text

theorem grown_lockstep (settings : Settings) (front : Text) :
    Lockstep settings (fun _ => False) (Grown front) where
  write source pieces p q h := by
    obtain ⟨rfl, counted, grown⟩ := h
    rw [write]
    cases written : p.output.writeAll pieces with
    | error error => exact .halts _
    | ok output =>
        obtain ⟨counted, text⟩ := Output.writeAll_text counted written
        exact .ends ⟨rfl, counted, text ▸ grown.trans (List.prefix_append _ _)⟩
  index _ _ h := congrArg (indexOf settings) h.same
  keep _ _ _ h _ := ⟨by rw [h.same], h.counted, h.front⟩
  read _ _ _ _ h := by rw [h.same]

/-- Steps that keep a relation keep it up to where one fails. -/
theorem related_stoppedAt {α β : Type} {R : α → α → Prop} {step : α → β → Except Halt α}
    {items : List β} (keeps : ∀ a b, ∀ item ∈ items, R a b →
      Alike (fun _ => False) R (step a item) (step b item)) {a : α} (h : R a a) :
    R (stoppedAt step a items).1 (stoppedAt step a items).1 := by
  obtain ⟨before, split, passed⟩ := foldlM_stoppedAt step a items
  have inside {item : β} (listed : item ∈ before) : item ∈ items :=
    split ▸ List.mem_append_left _ listed
  have folded := Alike.foldlM (fun a b item listed => keeps a b item (inside listed)) h
  rw [passed] at folded
  cases folded with
  | ends same => exact same

section Growing
variable {settings : Settings} {front : Text} {p : Progress}

theorem Grown.reach (h : Grown front p p) (read : SectionReader) (budget : Nat) (source : String)
    (checker : Option (String → Bool)) (reading : Reading) :
    Grown front (reach settings read budget source checker reading p)
      (reach settings read budget source checker reading p) := by
  have lockstep := grown_lockstep settings front
  induction budget generalizing source checker reading p with
  | zero => exact h
  | succ budget ih =>
      have walks (part : Section) (css : Text) (p q : Progress) (h : Grown front p q) :=
        lockstep.walk read budget part.sourceName (sectionChecker settings part) (read part css) h
      have expands := lockstep.expandSection source walks
      have start : Abreast (Grown front) (.start, p) (.start, p) := ⟨rfl, h⟩
      have stopped := related_stoppedAt
        (fun _ _ e (_ : e ∈ reading.events) same =>
          lockstep.walkEvent source checker expands same e) start
      let reachSection (part : Section) (css : Text) (p : Progress) : Except Halt Progress :=
        .ok (Convert.reach settings read budget part.sourceName (sectionChecker settings part)
          (read part css) p)
      have reaches (part : Section) (css : Text) (p q : Progress) (h : Grown front p q) :
          Alike (fun _ => False) (Grown front) (reachSection part css p)
            (reachSection part css q) := by
        obtain rfl := h.same
        exact .ends (ih h part.sourceName _ _)
      simp only [Convert.reach]
      split
      next p name values _ found =>
        rw [found] at stopped
        split
        · have reached := lockstep.expandSection source reaches values p p stopped.2
          generalize expandSection settings source _ values p = x at reached ⊢
          cases reached with
          | halts halt => exact stopped.2
          | ends same => exact same
          | stops never => exact never.elim
        · exact stopped.2
      next found =>
        rw [found] at stopped
        exact stopped.2

theorem Grown.walkInput {q : Progress} (h : Grown front p q) (read : SectionReader) (budget : Nat)
    (input : Input) : Alike (fun _ => False) (Grown front)
      (walkInput settings read budget p input) (walkInput settings read budget q input) := by
  obtain rfl := h.same
  simp only [Convert.walkInput]
  split
  · exact .halts _
  next css _ => exact (grown_lockstep settings front).walk read budget input.name none _ h

theorem Grown.reachInput (h : Grown front p p) (read : SectionReader) (budget : Nat)
    (input : Input) : Grown front (reachInput settings read budget p input)
      (reachInput settings read budget p input) := by
  simp only [Convert.reachInput]
  split
  · exact h
  · exact h.reach read budget input.name none _

end Growing

/-- A run that succeeds leaves its output behind. -/
theorem remains_text {settings : Settings} {inputs : List Input} {output : Output}
    (ran : run settings inputs none = .ok output) :
    (remains settings inputs).text = output.text := by
  obtain ⟨p, walked, text⟩ := runWith_eq_ok ran
  obtain ⟨_, _, standing, _⟩ := foldlM_walkInput_renders (start_standing settings.dist none) walked
  rw [remains, stoppedAt_of_ok walked]
  exact (text standing.counted).symm

/-- Nothing that was put out is taken back, whatever becomes of the inputs after it. -/
theorem remains_extends {settings : Settings} {before : List Input} {output : Output}
    (ran : run settings before none = .ok output) (inputs : List Input) :
    output.text <+: (remains settings (before ++ inputs)).text := by
  obtain ⟨p, walked, text⟩ := runWith_eq_ok ran
  obtain ⟨_, _, standing, _⟩ := foldlM_walkInput_renders (start_standing settings.dist none) walked
  have grown : Grown output.text p p :=
    ⟨rfl, standing.counted, text standing.counted ▸ List.prefix_refl _⟩
  have stopped := related_stoppedAt (fun _ _ input (_ : input ∈ inputs) h =>
    @Grown.walkInput settings output.text _ _ h wholeSection walkBudget input) grown
  rw [remains, stoppedAt_append walked]
  split
  next found =>
    rw [found] at stopped
    exact stopped.front
  next found =>
    rw [found] at stopped
    exact (stopped.reachInput wholeSection walkBudget _).front

end Convert
end UtilityCss
