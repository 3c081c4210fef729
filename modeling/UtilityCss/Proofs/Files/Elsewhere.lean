import UtilityCss.Files.Tree
import UtilityCss.Proofs.Convert.Outcome
import UtilityCss.Proofs.Convert.Writing

/-!
A file that is made leaves everything else as it was. Its place is reached through directories that
are there, so no directory comes into being around it, and as it is none itself no path leads
through it. Paths that lead elsewhere lead where they did before and find there what they found.
-/
namespace UtilityCss.Files
open UtilityCss.Convert

theorem lookup_filter_ne {place other : Location} (apart : other ≠ place)
    (nodes : List (Location × Node)) :
    (nodes.filter (·.1 != place)).lookup other = nodes.lookup other := by
  induction nodes with
  | nil => rfl
  | cons node nodes ih =>
      obtain ⟨here, node⟩ := node
      rw [List.filter_cons]
      split
      · rw [List.lookup_cons, List.lookup_cons, ih]
      next same =>
        have same : here = place := by simpa using same
        have differs : (other == here) = false := by simpa [same] using apart
        rw [ih, List.lookup_cons, differs]

theorem node?_put_self (files : Files) (place : Location) (octets : Octets) :
    (files.put place octets).node? place = some (.file octets) := by
  simp [node?, put]

theorem put_put (files : Files) (place : Location) (octets octets' : Octets) :
    (files.put place octets).put place octets' = files.put place octets' := by
  simp [put]

theorem node?_eq_none_iff {files : Files} {place : Location} :
    files.node? place = none ↔
      files.nodes.lookup place = none ∧ ¬ place <+: files.here ∧
        ∀ node ∈ files.nodes, ¬ place <+: node.1 := by
  rw [node?]
  split
  next found => simp [found]
  next absent => simp [absent]

theorem node?_congr {files files' : Files} {place : Location}
    (lookup : files.nodes.lookup place = files'.nodes.lookup place)
    (absent : files.node? place = none ↔ files'.node? place = none) :
    files.node? place = files'.node? place := by
  rw [node?, node?, lookup] at absent ⊢
  split
  · rfl
  next none =>
    simp only [none] at absent ⊢
    split <;> split <;> simp_all

/-- Nothing changes at other places, if there is something at every place on the way already. -/
theorem node?_put_of_ne {files : Files} {place other : Location} (apart : other ≠ place)
    (around : other <+: place → files.node? other ≠ none) (octets : Octets) :
    (files.put place octets).node? other = files.node? other := by
  have lookup : (files.put place octets).nodes.lookup other = files.nodes.lookup other := by
    have differs : (other == place) = false := by simpa using apart
    rw [put, List.lookup_cons, differs]
    exact lookup_filter_ne apart files.nodes
  refine node?_congr lookup ?_
  rw [node?_eq_none_iff, lookup]
  constructor
  · intro ⟨missing, outside, others⟩
    refine node?_eq_none_iff.mpr ⟨missing, outside, fun node inside => ?_⟩
    by_cases here : node.1 = place
    · rw [here]
      exact others (place, .file octets) List.mem_cons_self
    · exact others node (List.mem_cons_of_mem _ (List.mem_filter.mpr ⟨inside, by simpa using here⟩))
  · intro absent
    obtain ⟨missing, outside, others⟩ := node?_eq_none_iff.mp absent
    refine ⟨missing, outside, List.forall_mem_cons.mpr ⟨fun inside => around inside absent, ?_⟩⟩
    exact fun node inside => others node (List.mem_filter.mp inside).1

/-- There is something at every place on the way to a directory. -/
theorem node?_ne_none_of_prefix {files : Files} {place other : Location}
    (directory : files.node? place = some .directory) (inside : other <+: place) :
    files.node? other ≠ none := by
  intro absent
  obtain ⟨_, outside, others⟩ := node?_eq_none_iff.mp absent
  have missing : files.node? place = none := by
    refine node?_eq_none_iff.mpr ⟨?_, mt inside.trans outside, fun node listed => ?_⟩
    · rw [List.lookup_eq_none_iff]
      intro node listed
      have apart : place ≠ node.1 := fun same => others node listed (same ▸ inside)
      simpa using apart
    · exact mt inside.trans (others node listed)
  rw [missing] at directory
  cases directory

theorem enter_eq_ok {files : Files} {place next : Location} {name : Text}
    (h : files.enter place name = .ok next) :
    files.node? place = some .directory ∧
      (next = place ∨ next = place.dropLast ∨ next = place ++ [name]) := by
  rw [enter] at h
  split at h
  · cases h
  · cases h
  next directory =>
    refine ⟨directory, ?_⟩
    split at h
    · exact .inl (Except.ok.inj h).symm
    split at h
    · exact .inr (.inl (Except.ok.inj h).symm)
    · exact .inr (.inr (Except.ok.inj h).symm)

/-- Nothing is missing on the way to a place, which itself may be missing. -/
def Reachable (files : Files) (place : Location) : Prop :=
  ∀ other, other <+: place → other ≠ place → files.node? other ≠ none

theorem reachable_of_prefix {files : Files} {place next : Location}
    (directory : files.node? place = some .directory) (inside : next <+: place) :
    files.Reachable next :=
  fun _ before _ => node?_ne_none_of_prefix directory (before.trans inside)

theorem Reachable.enter {files : Files} {place next : Location} {name : Text}
    (h : files.enter place name = .ok next) : files.Reachable next := by
  obtain ⟨directory, rfl | rfl | rfl⟩ := enter_eq_ok h
  · exact reachable_of_prefix directory List.prefix_rfl
  · exact reachable_of_prefix directory (List.dropLast_prefix place)
  · intro other inside apart
    obtain whole | inside := List.prefix_concat_iff.mp inside
    · exact absurd whole apart
    · exact node?_ne_none_of_prefix directory inside

theorem reachable_of_locate {files : Files} {path : Text} {place : Location}
    (located : files.locate path = .ok place) : files.Reachable place := by
  have step (place : Location) (name : Text) (_ : name ∈ steps path) (_ : files.Reachable place)
      (next : Location) (h : files.enter place name = .ok next) : files.Reachable next := .enter h
  have start : (if Path.isAbsolute path then [] else files.here) <+: files.here := by
    split
    · exact List.nil_prefix
    · exact List.prefix_rfl
  rw [locate] at located
  split at located
  · cases located
  · refine foldlM_ok step (fun other inside _ absent => ?_) located
    exact (node?_eq_none_iff.mp absent).2.1 (inside.trans start)

/-- A file that is made, as what the tree becomes with it. -/
theorem create_eq_ok {files made : Files} {path : Text} {place : Location}
    (h : files.create path = .ok (place, made)) :
    files.Reachable place ∧ files.isDirectory place = false ∧ made = files.put place [] := by
  rw [create] at h
  obtain ⟨place', located, h⟩ := bind_eq_ok.mp h
  split at h
  · cases h
  next file =>
    cases h
    exact ⟨reachable_of_locate located, by simp_all, rfl⟩

section Created
variable {files made : Files} {path : Text} {place : Location}
  (created : files.create path = .ok (place, made))
include created

theorem put_created (octets : Octets) : made.put place octets = files.put place octets := by
  obtain ⟨_, _, rfl⟩ := create_eq_ok created
  exact put_put files place [] octets

/-- Whatever is written to a file that is made, nothing changes at any other place. -/
theorem node?_put_created {other : Location} (apart : other ≠ place) (octets : Octets) :
    (files.put place octets).node? other = files.node? other := by
  obtain ⟨reachable, _, _⟩ := create_eq_ok created
  exact node?_put_of_ne apart (fun inside => reachable other inside apart) octets

theorem node?_created {other : Location} (apart : other ≠ place) :
    made.node? other = files.node? other := by
  obtain ⟨_, _, same⟩ := create_eq_ok created
  rw [same]
  exact node?_put_created created apart []

theorem enter_created (dir : Location) (name : Text) :
    (made.enter dir name).toOption = (files.enter dir name).toOption := by
  by_cases here : dir = place
  · subst here
    obtain ⟨_, file, rfl⟩ := create_eq_ok created
    rw [enter, node?_put_self]
    cases h : files.enter dir name with
    | error _ => rfl
    | ok next => simp [isDirectory, (enter_eq_ok h).1] at file
  · rw [enter, enter, node?_created created here]

theorem locate_created (read : Text) :
    (made.locate read).toOption = (files.locate read).toOption := by
  obtain ⟨_, _, same⟩ := create_eq_ok created
  have here : made.here = files.here := by rw [same]; rfl
  rw [locate, locate, here]
  split
  · rfl
  · exact toOption_foldlM_congr (enter_created created) (steps read) _

/-- A path that leads elsewhere opens to what it opened to before, whether or not the output goes to
the file. -/
theorem source_created {output : Option Location} (goes : ∀ other ∈ output, other = place)
    {read : Text} (apart : files.locate read ≠ .ok place) :
    (made.source output read).toOption = (files.source none read).toOption := by
  rw [source, source, find, find]
  obtain ⟨other, located, located'⟩ | ⟨_, _, located, located'⟩ :=
    toOption_cases (locate_created created read) <;> rw [located, located']
  · have elsewhere : other ≠ place := by
      rintro rfl
      exact apart located'
    have steady : output ≠ some other := fun here => elsewhere (goes other (by simp [here]))
    simp only [bind, Except.bind, node?_created created elsewhere]
    cases files.node? other with
    | none => rfl
    | some node => simp [steady]
  · rfl

end Created
end UtilityCss.Files
