import UtilityCss.Piped
import UtilityCss.Proofs.Conduit.Lossless
import UtilityCss.Proofs.Convert.Refusal

/-!
What a conversion does at the writing end of a conduit. As long as its calls are taken it writes all
of its output, closes the conduit if all went well, and comes to the outcome that it has in front of
a destination that takes everything. Once it is told that nobody reads, that outcome is all it can
still come to besides the error that says so.
-/
namespace UtilityCss.Piped
open UtilityCss.Convert

/-- All that a producer can come to with the answers that a conduit gives. -/
def Producer.Ends (P : Except Halt Unit → Prop) : Producer → Prop
  | .returns result => P result
  | .calls c next => (next (.ok c.count)).Ends P ∧ (next (.error Conduit.brokenPipe)).Ends P

/-- The outcome that is due, or an error that says that nobody reads. -/
def Expected (own result : Except Halt Unit) : Prop :=
  result = own ∨ ∃ source, result = fail (.io source Conduit.brokenPipe)

/-- A producer that, as long as its calls are taken, writes so many octets and comes to an outcome
of its own, after a close if that is no error. -/
inductive Delivers (own : Except Halt Unit) : Octets → Producer → Prop
  | fails {halt} : own = .error halt → Delivers own [] (.returns own)
  | calls {c next rest} : c ≠ .close → Delivers own rest (next (.ok c.count)) →
      (next (.error Conduit.brokenPipe)).Ends (Expected own) →
      Delivers own (c.octets ++ rest) (.calls c next)
  | closes {next} : own = .ok () → next (.ok Conduit.Call.close.count) = .returns own →
      (next (.error Conduit.brokenPipe)).Ends (Expected own) → Delivers own [] (.calls .close next)

theorem Delivers.ends {own : Except Halt Unit} {rest : Octets} {p : Producer}
    (h : Delivers own rest p) : p.Ends (Expected own) := by
  induction h with
  | fails _ => exact .inl rfl
  | calls _ _ refused ih => exact ⟨ih, refused⟩
  | closes _ closed refused => exact ⟨closed ▸ .inl rfl, refused⟩

theorem Delivers.write {own : Except Halt Unit} {octets rest : Octets}
    {next : Except IoError Nat → Producer} (taken : Delivers own rest (next (.ok octets.length)))
    (refused : (next (.error Conduit.brokenPipe)).Ends (Expected own)) :
    Delivers own (octets ++ rest) (.calls (.write octets) next) :=
  @Delivers.calls own (.write octets) next rest nofun taken refused

section Leaving
variable {own result : Except Halt Unit}

theorem ends_closing (h : Expected own result) :
    (Producer.closing (.returns result)).Ends (Expected own) := by
  cases result with
  | ok _ => exact ⟨h, .inr ⟨workerName, rfl⟩⟩
  | error halt => exact h

theorem ends_leaving (h : Expected own result) (parting : List Octets) :
    (Producer.leaving result parting).closing.Ends (Expected own) := by
  induction parting with
  | nil => exact ends_closing h
  | cons octets parting ih => exact ⟨ih, ih⟩

theorem delivers_leaving {halt : Halt} (parting : List Octets) :
    Delivers (.error halt) parting.flatten (Producer.leaving (.error halt) parting).closing := by
  induction parting with
  | nil => exact .fails rfl
  | cons octets parting ih =>
      exact .write ih (ends_leaving (.inl rfl) parting)

theorem delivers_flushing : Delivers (.ok ()) [] Producer.flushing.closing := by
  have close : Delivers (.ok ()) [] (Producer.closing (.returns (.ok ()))) :=
    .closes rfl rfl (.inr ⟨workerName, rfl⟩)
  have refused : Expected (.ok ()) (fail (.io outputName Conduit.brokenPipe)) := .inr ⟨_, rfl⟩
  exact @Delivers.calls _ .flush _ [] nofun close refused

end Leaving

theorem outcome_within (settings : Settings) (inputs : List Input) (size : Nat) :
    Expected (outcome settings inputs none)
      (outcome settings inputs (some ⟨size, Conduit.brokenPipe⟩)) := by
  have within := run_within settings inputs ⟨size, Conduit.brokenPipe⟩
  simp only [outcome]
  generalize run settings inputs none = x at within
  generalize run settings inputs (some ⟨size, Conduit.brokenPipe⟩) = y at within
  cases within with
  | halts halt => exact .inl rfl
  | ends _ => exact .inl rfl
  | stops refused =>
      obtain ⟨source, rfl⟩ := refused
      exact .inr ⟨source, rfl⟩

namespace Delivery
variable {settings : Settings} {inputs : List Input} (d : Delivery settings inputs)

theorem producerFrom_delivers (count size : Nat) (writes : List Octets) :
    ∃ parting, Delivers (outcome settings inputs none) (writes.flatten ++ parting)
      (d.producerFrom count size writes).closing ∧
        (outcome settings inputs none = .ok () → parting = []) := by
  induction writes generalizing count size with
  | nil =>
      rw [producerFrom]
      cases outcome settings inputs none with
      | ok _ => exact ⟨[], delivers_flushing, fun _ => rfl⟩
      | error halt => exact ⟨(d.parting count).flatten, delivers_leaving _, nofun⟩
  | cons octets rest ih =>
      obtain ⟨parting, delivers, none⟩ := ih (count + 1) (size + octets.length)
      refine ⟨parting, ?_, none⟩
      rw [List.flatten_cons, List.append_assoc]
      exact .write delivers (ends_leaving (outcome_within settings inputs size) _)

/-- The octets that a conversion delivers if it comes to a good end are its output. -/
theorem producer_delivers : ∃ whole, Delivers (outcome settings inputs none) whole d.producer ∧
    ∀ output, run settings inputs none = .ok output → whole = Octets.ofText output.text := by
  obtain ⟨parting, delivers, none⟩ := d.producerFrom_delivers 0 0 d.writes
  refine ⟨_, delivers, fun output ran => ?_⟩
  have good : outcome settings inputs .none = .ok () := by rw [outcome, ran]; rfl
  rw [none good, List.append_nil, d.whole output ran]

end Delivery
end UtilityCss.Piped
