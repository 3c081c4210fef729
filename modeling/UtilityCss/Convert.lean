import UtilityCss.Convert.Walk

/-!
Conversion of inputs in order, each read when its turn comes, into one output. A transform may
stand between the conversion and its destination; it gets to see all that was written, and an error
of the conversion itself comes before any of the transform's.
-/
namespace UtilityCss.Convert

structure Input where
  name : String
  source : Source
  /-- Whether the input is a bare list of declarations. -/
  inline : Bool

def walkInput (settings : Settings) (read : SectionReader) (budget : Nat) (p : Progress)
    (input : Input) : Except Halt Progress :=
  match input.source.text p.output.sent with
  | .error error => fail (.io input.name error)
  | .ok css => walk settings read budget input.name none (Reading.ofText css input.inline) p

/-- The name that errors of the last flush are reported under. -/
def outputName : String := "[output]"

/-- A run whose walks nest at most as deep as a budget, with a reader for the sections. -/
def runWith (settings : Settings) (read : SectionReader) (budget : Nat) (inputs : List Input)
    (room : Option Room) : Except Halt Output := do
  let p ← inputs.foldlM (walkInput settings read budget) ⟨.start room, none⟩
  match p.output.flush with
  | .error error => fail (.io outputName error)
  | .ok output => return output

/-- One walk for the input itself and one for each section. -/
def walkBudget : Nat := 4

def run (settings : Settings) (inputs : List Input) (room : Option Room) :
    Except Halt Output :=
  runWith settings wholeSection walkBudget inputs room

/-- How a transform of the whole output ends. -/
inductive Ending where
  | finished (output : Octets)
  | failed (error : IoError)
  | panicked

def Transform := Octets → Ending

/-- A transform into a destination of limited room. -/
def Transform.within (transform : Transform) (room : Room) : Transform := fun octets =>
  match transform octets with
  | .finished output =>
    if room.octets < output.length then .failed room.refusal else .finished output
  | ending => ending

def workerName : String := "[post-process]"

def runThrough (transform : Transform) (settings : Settings) (inputs : List Input) :
    Except Halt Octets := do
  let output ← run settings inputs none
  match transform (.ofText output.text) with
  | .finished octets => return octets
  | .failed error => fail (.postProcess error)
  | .panicked => fail (.internal workerName .workerPanicked)

end UtilityCss.Convert
