import UtilityCss.Convert.Output
import UtilityCss.Proofs.Basic

/-!
What is written. The output takes every piece in order, whether it is held back or sent, and without
a limit it takes all there are.
-/
namespace UtilityCss

namespace Output

/-- The size on record is that of the pieces that are held. -/
def Counted (o : Output) : Prop :=
  o.heldSize = Text.size o.held.flatten

theorem start_counted (room : Option Room) : (start room).Counted :=
  rfl

theorem send_eq {o o' : Output} {pieces : List Text} {size : Nat}
    (h : o.send pieces size = .ok o') :
    o' = { o with sent := pieces ++ o.sent, sentSize := o.sentSize + size } := by
  rw [send] at h
  split at h
  · split at h <;> cases h
    rfl
  · cases h
    rfl

theorem flatten_held {o : Output} (counted : o.Counted) (none : o.heldSize = 0) :
    o.held.reverse.flatten = [] := by
  rw [Counted, none] at counted
  have empty : o.held.flatten = [] := Text.eq_nil_of_size counted.symm
  simpa using empty

theorem flush_text {o o' : Output} (counted : o.Counted) (h : o.flush = .ok o') :
    o'.Counted ∧ o'.text = o.text ∧ o'.held.reverse.flatten = [] := by
  rw [flush] at h
  split at h
  next none =>
    cases h
    exact ⟨counted, rfl, flatten_held counted none⟩
  next =>
    cases sent : o.send o.held o.heldSize with
    | error error =>
        rw [sent] at h
        cases h
    | ok o₁ =>
        rw [sent] at h
        cases h
        cases send_eq sent
        exact ⟨rfl, by simp [text], rfl⟩

theorem hold_text {o : Output} (counted : o.Counted) (piece : Text) :
    (o.hold piece).Counted ∧ (o.hold piece).text = o.text ++ piece := by
  constructor
  · rw [Counted] at counted
    rw [Counted, hold, List.flatten_cons, Text.size_append, ← counted, Nat.add_comm]
  · simp [hold, text]

/-- Nothing is held in front of a piece that is sent by itself. -/
theorem writeFull_text {o o' : Output} {piece : Text} (counted : o.Counted)
    (empty : capacity ≤ piece.size → o.held.reverse.flatten = [])
    (h : (if capacity ≤ piece.size then o.send [piece] piece.size else pure (o.hold piece)) =
      .ok o') : o'.Counted ∧ o'.text = o.text ++ piece := by
  split at h
  next large =>
    have none := empty large
    cases send_eq h
    exact ⟨counted, by simp [text, none]⟩
  · cases h
    exact hold_text counted piece

theorem write_text {o o' : Output} {piece : Text} (counted : o.Counted)
    (h : o.write piece = .ok o') : o'.Counted ∧ o'.text = o.text ++ piece := by
  simp only [write] at h
  split at h
  · cases h
    exact hold_text counted piece
  split at h
  · obtain ⟨o₁, flushed, rest⟩ := bind_eq_ok.mp h
    obtain ⟨counted, same, sent⟩ := flush_text counted flushed
    rw [← same]
    exact writeFull_text counted (fun _ => sent) rest
  · exact writeFull_text counted (fun large => flatten_held counted (by omega)) h

theorem writeAll_text {o o' : Output} {pieces : List Text} (counted : o.Counted)
    (h : o.writeAll pieces = .ok o') : o'.Counted ∧ o'.text = o.text ++ pieces.flatten := by
  induction pieces generalizing o with
  | nil =>
      cases h
      exact ⟨counted, by simp⟩
  | cons piece pieces ih =>
      rw [writeAll, List.foldlM_cons] at h
      obtain ⟨o₁, written, rest⟩ := bind_eq_ok.mp h
      obtain ⟨counted, first⟩ := write_text counted written
      obtain ⟨counted, others⟩ := ih counted rest
      exact ⟨counted, by simp [others, first]⟩

theorem send_unlimited {o : Output} (unlimited : o.room = none) (pieces : List Text) (size : Nat) :
    ∃ o', o.send pieces size = .ok o' ∧ o'.room = none := by
  simp only [send, unlimited]
  exact ⟨_, rfl, rfl⟩

theorem flush_unlimited {o : Output} (unlimited : o.room = none) :
    ∃ o', o.flush = .ok o' ∧ o'.room = none := by
  rw [flush]
  split
  · exact ⟨o, rfl, unlimited⟩
  · obtain ⟨o', sent, unlimited⟩ := send_unlimited unlimited o.held o.heldSize
    rw [sent]
    exact ⟨_, rfl, unlimited⟩

theorem write_unlimited {o : Output} (unlimited : o.room = none) (piece : Text) :
    ∃ o', o.write piece = .ok o' ∧ o'.room = none := by
  have full {o : Output} (unlimited : o.room = none) : ∃ o', (if capacity ≤ piece.size then
      o.send [piece] piece.size else pure (o.hold piece)) = .ok o' ∧ o'.room = none := by
    split
    · exact send_unlimited unlimited _ _
    · exact ⟨_, rfl, unlimited⟩
  simp only [write]
  split
  · exact ⟨_, rfl, unlimited⟩
  · split
    · obtain ⟨o', flushed, unlimited⟩ := flush_unlimited unlimited
      rw [flushed]
      exact full unlimited
    · exact full unlimited

theorem writeAll_unlimited {o : Output} (unlimited : o.room = none) (pieces : List Text) :
    ∃ o', o.writeAll pieces = .ok o' ∧ o'.room = none := by
  induction pieces generalizing o with
  | nil => exact ⟨o, rfl, unlimited⟩
  | cons piece pieces ih =>
      obtain ⟨o', written, unlimited⟩ := write_unlimited unlimited piece
      rw [writeAll, List.foldlM_cons, written]
      exact ih unlimited

end Output

end UtilityCss
