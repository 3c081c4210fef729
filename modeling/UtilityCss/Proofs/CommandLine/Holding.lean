import Mathlib.Data.List.Basic
import UtilityCss.CommandLine
import UtilityCss.Proofs.Basic
import UtilityCss.Proofs.Files.Elsewhere

/-!
What a run of the command converts. The output is made before an input is opened or a section read,
so what was in it before is lost to them. Where it is none of these files, the output is what the
tree comes to as it was found, and in any case no other file is touched.
-/
namespace UtilityCss.CommandLine
open UtilityCss.Convert

/-- What a tree comes to when nothing is written to it meanwhile: every input and every section is
read as the tree holds it. -/
def conversion (files : Files) (arguments : Arguments) (stdin : Octets) :
    Except Failure Octets := do
  let settings ← (settings files arguments).mapError .settings
  let some path := settings.distribution | .error .noDistribution
  let dir : StyleDirectory := ⟨path, none⟩
  let usage ← usage? files dir settings.purge
  convert files none arguments settings dir usage stdin

/-- The paths that a conversion reads, apart from standard input: those of the inputs and of the
sections in force. -/
def readPaths (files : Files) (arguments : Arguments) : List Text :=
  let sections := match settings files arguments with
    | .ok settings => settings.distribution.toList.flatMap fun path =>
      Section.all.map (StyleDirectory.filePath ⟨path, none⟩)
    | .error _ => []
  (inputPaths arguments).filter (· != ['-']) ++ sections

section Created
variable {files made : Files} {path : Text} {place : Location}
  (created : files.create path = .ok (place, made))
include created

theorem openInputs_created {output : Option Location} (goes : ∀ other ∈ output, other = place)
    (inline : Bool) (stdin : Octets) {paths : List Text}
    (apart : ∀ read ∈ paths, read ≠ ['-'] → files.locate read ≠ .ok place) :
    (openInputs made output inline stdin paths).toOption =
      (openInputs files none inline stdin paths).toOption := by
  induction stdin, paths using openInputs.induct with
  | case1 stdin => rfl
  | case2 stdin rest ih =>
      have others := ih fun read listed => apart read (List.mem_cons_of_mem _ listed)
      rw [openInputs, openInputs]
      exact toOption_bind_congr others fun _ => rfl
  | case3 stdin path rest dash ih =>
      have others := ih fun read listed => apart read (List.mem_cons_of_mem _ listed)
      have opened := Files.source_created created goes (apart path List.mem_cons_self dash)
      rw [openInputs, openInputs]
      · refine toOption_bind_congr ?_ fun _ => toOption_bind_congr others fun _ => rfl
        rw [toOption_mapError, toOption_mapError, opened]
      · exact dash
      · exact dash

/-- A conversion does not depend on where it goes, if that is none of the files that it reads. -/
theorem convert_created {arguments : Arguments} {settings : Settings} {dir : StyleDirectory}
    (inputs : ∀ read ∈ inputPaths arguments, read ≠ ['-'] → files.locate read ≠ .ok place)
    (sections : ∀ part, files.locate (dir.filePath part) ≠ .ok place) (usage : Option Usage)
    (stdin : Octets) :
    (convert made (some place) arguments settings dir usage stdin).toOption =
      (convert files none arguments settings dir usage stdin).toOption := by
  have goes : ∀ other ∈ (if settings.minify then none else some place), other = place := by
    split <;> simp
  have same (live : Option Location) (goes : ∀ other ∈ live, other = place) : Interchangeable
      ⟨dir.distribution made live, usage.map (·.snapshot.purges)⟩
      ⟨dir.distribution files none, usage.map (·.snapshot.purges)⟩ := by
    refine ⟨fun part => ?_, rfl⟩
    simp only [StyleDirectory.distribution, toOption_mapError]
    exact Files.source_created created goes (sections part)
  simp only [convert, ite_self]
  refine toOption_bind_congr (openInputs_created created goes _ stdin inputs) fun inputs => ?_
  split
  · rw [toOption_mapError, toOption_mapError]
    exact (same none (by simp)).runThrough _ inputs
  · refine toOption_bind_congr ?_ fun _ => rfl
    rw [toOption_mapError, toOption_mapError]
    exact (same (some place) (by simp)).run inputs none

end Created

/-- What a run that succeeds has gone through. -/
theorem run_eq_ok {files : Files} {arguments : Arguments} {stdin : Octets} {result : Result}
    (ran : run files arguments stdin = .ok result) :
    ∃ found path usage place made octets, settings files arguments = .ok found ∧
      found.distribution = some path ∧ usage? files ⟨path, none⟩ found.purge = .ok usage ∧
      create files arguments.output = .ok (place, made) ∧
      convert made place arguments found ⟨path, none⟩ usage stdin = .ok octets ∧
      result = match place with
        | some place => ⟨[], made.put place octets⟩
        | none => ⟨octets, made⟩ := by
  obtain ⟨found, loaded, ran⟩ := bind_eq_ok.mp ran
  split at ran
  next path styles =>
    obtain ⟨usage, scanned, ran⟩ := bind_eq_ok.mp ran
    obtain ⟨⟨place, made⟩, created, ran⟩ := bind_eq_ok.mp ran
    obtain ⟨octets, converted, ran⟩ := bind_eq_ok.mp ran
    exact ⟨found, path, usage, place, made, octets, mapError_eq_ok.mp loaded, styles, scanned,
      created, converted, (Except.ok.inj ran).symm⟩
  next => cases ran

theorem conversion_eq {files : Files} {arguments : Arguments} {found : Settings} {path : Text}
    {usage : Option Usage} (loaded : settings files arguments = .ok found)
    (styles : found.distribution = some path)
    (scanned : usage? files ⟨path, none⟩ found.purge = .ok usage) (stdin : Octets) :
    conversion files arguments stdin =
      convert files none arguments found ⟨path, none⟩ usage stdin := by
  rw [conversion, mapError_eq_ok.mpr loaded]
  simp only [bind, Except.bind, styles, scanned]

theorem apart_of_readPaths {files : Files} {arguments : Arguments} {found : Settings} {path : Text}
    (loaded : settings files arguments = .ok found) (styles : found.distribution = some path)
    {place : Location} (apart : ∀ read ∈ readPaths files arguments, files.locate read ≠ .ok place) :
    (∀ read ∈ inputPaths arguments, read ≠ ['-'] → files.locate read ≠ .ok place) ∧
      ∀ part, files.locate (StyleDirectory.filePath ⟨path, none⟩ part) ≠ .ok place := by
  simp only [readPaths, loaded, styles] at apart
  constructor
  · intro read listed dash
    exact apart read (List.mem_append_left _ (List.mem_filter.mpr ⟨listed, by simpa using dash⟩))
  · intro part
    have listed : part ∈ Section.all := by cases part <;> decide
    exact apart _ (List.mem_append_right _ (by simpa using ⟨part, listed, rfl⟩))

/-- A run that succeeds leaves every file as it was but the output. Without an output in the tree,
or with one that is none of the files that are read, what is put out is what the tree comes to as it
was found. -/
theorem run_converts_held {files : Files} {arguments : Arguments} {stdin : Octets} {result : Result}
    (ran : run files arguments stdin = .ok result) :
    match arguments.output with
    | none => result.files = files ∧ conversion files arguments stdin = .ok result.output
    | some path =>
      ∃ place made, files.create path = .ok (place, made) ∧ result.output = [] ∧
        (∀ other, other ≠ place → result.files.node? other = files.node? other) ∧
        ((∀ read ∈ readPaths files arguments, files.locate read ≠ .ok place) →
          ∃ octets, conversion files arguments stdin = .ok octets ∧
            result.files.node? place = some (.file octets)) := by
  obtain ⟨found, dir, usage, place, made, octets, loaded, styles, scanned, created, converted,
    rfl⟩ := run_eq_ok ran
  have held := conversion_eq loaded styles scanned stdin
  cases output : arguments.output with
  | none =>
      rw [output] at created
      cases created
      exact ⟨rfl, held.trans converted⟩
  | some path =>
      rw [output] at created
      obtain ⟨⟨place, made⟩, created, same⟩ := bind_eq_ok.mp created
      cases same
      have created := mapError_eq_ok.mp created
      refine ⟨place, made, created, rfl, fun other elsewhere => ?_, fun apart => ?_⟩
      · show (made.put place octets).node? other = _
        rw [Files.put_created created]
        exact Files.node?_put_created created elsewhere octets
      · obtain ⟨inputs, sections⟩ := apart_of_readPaths loaded styles apart
        have converted' :=
          ok_of_toOption (convert_created created inputs sections usage stdin) converted
        exact ⟨octets, held.trans converted', Files.node?_put_self made place octets⟩

/-- A stylesheet, and a distribution with nothing in it. -/
def exampleTree : Files :=
  let tree := [("a.css", "x\x7by:z\x7d"), ("d/base.css", ""), ("d/components.css", ""),
    ("d/utilities.css", "")]
  tree.foldl (fun files (path, text) => files.add path.toList (.ofText text.toList)) (.empty [])

/-- Converts the stylesheet into the given file. -/
def exampleArguments (output : String) : Arguments :=
  { Arguments.none with
    inputs := ["a.css".toList], output := some output.toList, distribution := some ['d'] }

/-- The output is a file of its own. -/
theorem run_converts_beside :
    ∃ result octets, run exampleTree (exampleArguments "b.css") [] = .ok result ∧
      conversion exampleTree (exampleArguments "b.css") [] = .ok octets ∧
      result.files.node? ["b.css".toList] = some (.file octets) := by
  have succeeds : (run exampleTree (exampleArguments "b.css") []).toOption.isSome := by
    decide +kernel
  cases ran : run exampleTree (exampleArguments "b.css") [] with
  | error _ =>
      rw [ran] at succeeds
      cases succeeds
  | ok result =>
      obtain ⟨place, made, created, _, _, held⟩ := run_converts_held ran
      have leads : (exampleTree.create "b.css".toList).toOption.map (·.1) =
          some ["b.css".toList] := by
        decide +kernel
      obtain rfl : place = ["b.css".toList] := by
        rw [show exampleTree.create "b.css".toList = _ from created] at leads
        exact Option.some.inj leads
      obtain ⟨octets, converted, written⟩ := held (by decide +kernel)
      exact ⟨result, octets, rfl, converted, written⟩

/-- The output is the stylesheet itself, of which nothing is left. -/
theorem run_loses_input :
    (run exampleTree (exampleArguments "a.css") []).toOption.bind (·.files.read? "a.css".toList) =
        some [] ∧
      (conversion exampleTree (exampleArguments "a.css") []).toOption =
        some (.ofText "x\x7by:z;\x7d".toList) := by
  decide +kernel

end UtilityCss.CommandLine
