import UtilityCss.Proofs.Convert.Lockstep

/-!
A conversion in front of a destination of limited room goes on as it would in front of any other
until it is refused. Then it ends with what it was told, under the name of the source it was at.
-/
namespace UtilityCss

namespace Output

/-- An output without a limit, and one that stands at the same point and has one. -/
def Within (room : Room) (o o' : Output) : Prop :=
  o.room = none ∧ o' = { o with room := some room }

variable {room : Room} {o o' : Output}

theorem Within.send (h : Within room o o') (pieces : List Text) (size : Nat) :
    Convert.Alike (· = room.refusal) (Within room) (o.send pieces size) (o'.send pieces size) := by
  obtain ⟨free, rfl⟩ := h
  simp only [Output.send, free]
  by_cases full : room.octets < o.sentSize + size
  · rw [if_pos full]
    exact .stops rfl
  · rw [if_neg full]
    exact .ends ⟨rfl, rfl⟩

theorem Within.flush (h : Within room o o') :
    Convert.Alike (· = room.refusal) (Within room) o.flush o'.flush := by
  have sent := h.send o.held o.heldSize
  obtain ⟨free, rfl⟩ := h
  simp only [Output.flush]
  by_cases empty : o.heldSize = 0
  · rw [if_pos empty, if_pos empty]
    exact .ends ⟨free, rfl⟩
  · rw [if_neg empty, if_neg empty]
    exact sent.bind fun _ _ ⟨free, same⟩ => .ends ⟨free, by rw [same]⟩

theorem Within.hold (h : Within room o o') (piece : Text) :
    Within room (o.hold piece) (o'.hold piece) := by
  obtain ⟨free, rfl⟩ := h
  exact ⟨free, rfl⟩

theorem Within.write (h : Within room o o') (piece : Text) :
    Convert.Alike (· = room.refusal) (Within room) (o.write piece) (o'.write piece) := by
  have full {o o' : Output} (h : Within room o o') : Convert.Alike (· = room.refusal) (Within room)
      (if capacity ≤ piece.size then o.send [piece] piece.size else pure (o.hold piece))
      (if capacity ≤ piece.size then o'.send [piece] piece.size else pure (o'.hold piece)) := by
    split
    · exact h.send [piece] piece.size
    · exact .ends (h.hold piece)
  have size : o'.heldSize = o.heldSize := by rw [h.2]
  simp only [Output.write, size]
  split
  · exact .ends (h.hold piece)
  · split
    · exact h.flush.bind fun _ _ => full
    · exact full h

theorem Within.writeAll (h : Within room o o') (pieces : List Text) :
    Convert.Alike (· = room.refusal) (Within room) (o.writeAll pieces) (o'.writeAll pieces) :=
  Convert.Alike.foldlM (fun _ _ piece _ h => h.write piece) h

end Output

namespace Convert

/-- Progress that differs only in the room its output has. -/
structure Narrowed (room : Room) (p q : Progress) : Prop where
  output : p.output.Within room q.output
  index : q.index = p.index

/-- The end of a conversion that is told there is no room. -/
def Refused (room : Room) (halt : Halt) : Prop :=
  ∃ source, halt = .error (.io source room.refusal)

section Walk
variable {settings : Settings} {room : Room} {p q : Progress}

theorem Narrowed.sent (h : Narrowed room p q) : q.output.sent = p.output.sent := by
  rw [h.output.2]

theorem Narrowed.write (h : Narrowed room p q) (source : String) (pieces : List Text) :
    Alike (Refused room) (Narrowed room) (write source pieces p) (write source pieces q) := by
  have written := h.output.writeAll pieces
  simp only [Convert.write]
  generalize p.output.writeAll pieces = x at written
  generalize q.output.writeAll pieces = y at written
  cases written with
  | halts error => exact .halts _
  | ends same => exact .ends ⟨same, h.index⟩
  | stops refused =>
      subst refused
      exact .stops ⟨source, rfl⟩

theorem Narrowed.indexOf_eq (h : Narrowed room p q) : indexOf settings p = indexOf settings q := by
  simp only [indexOf, h.index, h.sent]

theorem narrowed_lockstep (settings : Settings) (room : Room) :
    Lockstep settings (Refused room) (Narrowed room) where
  write source pieces _ _ h := h.write source pieces
  index _ _ h := h.indexOf_eq
  keep _ _ _ h _ := ⟨h.output, rfl⟩
  read source part _ _ h := by simp only [readSection, h.sent]

theorem walkInput_narrowed (read : SectionReader) (budget : Nat) (h : Narrowed room p q)
    (input : Input) : Alike (Refused room) (Narrowed room) (walkInput settings read budget p input)
      (walkInput settings read budget q input) := by
  simp only [walkInput, h.sent]
  cases input.source.text p.output.sent with
  | error error => exact .halts _
  | ok css => exact (narrowed_lockstep settings room).walk read budget input.name none _ h

end Walk

/-- With a limited room a run ends as it does without a limit, or it is refused. -/
theorem run_within (settings : Settings) (inputs : List Input) (room : Room) :
    Alike (Refused room) (Output.Within room) (run settings inputs none)
      (run settings inputs (some room)) := by
  have start : Narrowed room ⟨.start none, none⟩ ⟨.start (some room), none⟩ := ⟨⟨rfl, rfl⟩, rfl⟩
  refine (Alike.foldlM (fun _ _ input _ h => walkInput_narrowed _ _ h input) start).bind
    fun p q h => ?_
  have flushed := h.output.flush
  generalize p.output.flush = x at flushed
  generalize q.output.flush = y at flushed
  cases flushed with
  | halts error => exact .halts _
  | ends same => exact .ends same
  | stops refused =>
      subst refused
      exact .stops ⟨outputName, rfl⟩

end Convert
end UtilityCss
