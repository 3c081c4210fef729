import UtilityCss.Piped
import UtilityCss.Proofs.Convert.Remains

/-!
The writes that a conversion really makes. They are what its buffer hands over, and after an error
what it still holds goes in a last one.
-/
namespace UtilityCss.Piped
open UtilityCss.Convert

/-- What the buffer of a conversion hands over, with what is left in it at the end. -/
def handings (settings : Settings) (inputs : List Input) : List Handing × List Handing :=
  let (o, handed) := Output.replay (remains settings inputs).pieces
  (handed, o.drains)

theorem handings_octets {settings : Settings} {inputs : List Input} {output : Output}
    (ran : run settings inputs none = .ok output) :
    ((handings settings inputs).1 ++ (handings settings inputs).2).flatMap (·.octets) =
      Octets.ofText output.text := by
  rw [← remains_text ran]
  exact Output.replay_octets (remains settings inputs).pieces

/-- The output cut into the writes that the buffer makes. A refused write leaves in the buffer what
it was to hand over. -/
def Delivery.buffered (settings : Settings) (inputs : List Input) : Delivery settings inputs where
  writes :=
    let (handed, left) := handings settings inputs
    let all := match run settings inputs none with
      | .ok _ => handed ++ left
      | .error _ => handed
    all.map (·.octets)
  parting count :=
    let (handed, left) := handings settings inputs
    ((handed ++ left)[count]?.toList.map (·.kept)).filter (!·.isEmpty)
  whole output ran := by
    simp only [ran, ← handings_octets ran, List.flatMap_def]

/-- An output that the buffer can hold is written at once. -/
theorem buffered_writes {settings : Settings} {inputs : List Input} {output : Output}
    (ran : run settings inputs none = .ok output) (fits : output.text.size < Output.capacity)
    (filled : output.text ≠ []) :
    (Delivery.buffered settings inputs).writes = (Delivery.once settings inputs).writes := by
  rw [← remains_text ran] at fits filled
  have once := Output.replay_of_fits fits filled
  simp only [Delivery.buffered, Delivery.once, ran, ← remains_text ran]
  exact once

end UtilityCss.Piped
