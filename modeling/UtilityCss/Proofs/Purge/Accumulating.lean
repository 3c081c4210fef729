import UtilityCss.Proofs.Purge.Recording

/-!
Scan after scan. A record of used keys only grows, by what each scan delivers before it ends or
breaks off, so that the order of the scans is of no account. What was frozen at some time stays as
it was.
-/
namespace UtilityCss

namespace Usage

/-- A scan of markup, or of what another tokenizer delivers. -/
inductive Scan where
  | markup (feed : Feed)
  | tokens (delivered : List Octets × Option IoError)

namespace Scan

def delivered : Scan → List Octets × Option IoError
  | markup feed => Markup.tokens feed
  | tokens delivered => delivered

/-- The keys of the tokens that come before the end or the error. -/
def keys (scan : Scan) : List String :=
  scan.delivered.1.map fun token => String.ofList token.lenientText

end Scan

def perform (usage : Usage) : Scan → Usage × Except IoError Nat
  | .markup feed => usage.scan feed
  | .tokens delivered => usage.scanDelivered delivered

theorem perform_eq (usage : Usage) (scan : Scan) :
    usage.perform scan = usage.scanDelivered scan.delivered := by
  cases scan <;> rfl

theorem known_recordTokens (usage : Usage) (tokens : List Octets) :
    (usage.recordTokens tokens).known = usage.known := by
  induction tokens generalizing usage with
  | nil => rfl
  | cons token rest ih => exact (ih _).trans (usage.known_record _)

theorem known_perform (usage : Usage) (scan : Scan) :
    (usage.perform scan).1.known = usage.known := by
  rw [perform_eq]
  exact usage.known_recordTokens _

theorem mem_perform {usage : Usage} {scan : Scan} {key : String} :
    key ∈ (usage.perform scan).1.used ↔
      key ∈ usage.used ∨ usage.isKnown key = true ∧ key ∈ scan.keys := by
  rw [perform_eq]
  exact mem_recordTokens

theorem size_diff {earlier later : KeySet} (kept : ∀ key ∈ earlier, key ∈ later) :
    (later \ earlier).size = later.size - earlier.size := by
  have parts : (later \ earlier).size + (later ∩ earlier).size = later.size :=
    Std.TreeSet.size_diff_add_size_inter_eq_size_left
  rw [Std.TreeSet.size_inter_eq_size_right kept] at parts
  omega

/-- A scan that does not break off tells how many keys are there that were not there before. -/
theorem perform_answer (usage : Usage) (scan : Scan) :
    (usage.perform scan).2 = scan.delivered.2.elim
      (.ok ((usage.perform scan).1.used \ usage.used).size) .error := by
  rw [size_diff fun key used => mem_perform.mpr (.inl used), perform_eq, scanDelivered]
  cases scan.delivered.2 <;> rfl

theorem isKnown_eq_true_iff {usage : Usage} {key : String} :
    usage.isKnown key = true ↔ ∀ keys ∈ usage.known, key ∈ keys := by
  rw [isKnown]
  cases usage.known with
  | none => simp
  | some keys => simp [Std.TreeSet.contains_iff_mem]

/-- What can be done with a record over and over. -/
inductive Deed where
  | scan (scan : Scan)
  | freeze

/-- A record with all that was answered and handed out so far, oldest first. -/
structure Session where
  usage : Usage
  answers : List (Except IoError Nat)
  frozen : List UsedKeys

namespace Session

def start (known : Option KeySet) : Session :=
  ⟨ofKnown known, [], []⟩

def step (s : Session) : Deed → Session
  | .scan scan =>
    let (after, answer) := s.usage.perform scan
    { s with usage := after, answers := s.answers ++ [answer] }
  | .freeze => { s with frozen := s.frozen ++ [s.usage.snapshot] }

def run (s : Session) (deeds : List Deed) : Session :=
  deeds.foldl step s

theorem isKnown_step (s : Session) (deed : Deed) :
    (s.step deed).usage.isKnown = s.usage.isKnown := by
  cases deed with
  | freeze => rfl
  | scan scan =>
      funext key
      simp only [step, isKnown, known_perform]

/-- A deed adds the known keys of what it scans. -/
theorem mem_step {s : Session} {deed : Deed} {key : String} :
    key ∈ (s.step deed).usage.used ↔ key ∈ s.usage.used ∨
      s.usage.isKnown key = true ∧ ∃ scan, .scan scan = deed ∧ key ∈ scan.keys := by
  cases deed with
  | freeze => simp [step]
  | scan scan => simpa [step] using mem_perform

theorem mem_run {s : Session} {deeds : List Deed} {key : String} :
    key ∈ (s.run deeds).usage.used ↔ key ∈ s.usage.used ∨
      s.usage.isKnown key = true ∧ ∃ scan, .scan scan ∈ deeds ∧ key ∈ scan.keys := by
  rw [run]
  induction deeds generalizing s with
  | nil => simp
  | cons deed rest ih =>
      rw [List.foldl_cons, ih, isKnown_step, mem_step, or_assoc, ← and_or_left]
      simp only [List.mem_cons, or_and_right, exists_or]

theorem answers_step (s : Session) (deed : Deed) : s.answers <+: (s.step deed).answers := by
  cases deed with
  | freeze => exact List.prefix_refl _
  | scan scan => exact List.prefix_append _ _

theorem frozen_step (s : Session) (deed : Deed) : s.frozen <+: (s.step deed).frozen := by
  cases deed with
  | freeze => exact List.prefix_append _ _
  | scan scan => exact List.prefix_refl _

/-- What was answered and handed out stays, with what comes later behind it. -/
theorem run_extends (s : Session) (deeds : List Deed) :
    s.answers <+: (s.run deeds).answers ∧ s.frozen <+: (s.run deeds).frozen := by
  induction deeds generalizing s with
  | nil => exact ⟨List.prefix_refl _, List.prefix_refl _⟩
  | cons deed rest ih =>
      obtain ⟨answers, frozen⟩ := ih (s.step deed)
      exact ⟨(s.answers_step deed).trans answers, (s.frozen_step deed).trans frozen⟩

end Session

/-- The record for the given keys after deeds. -/
def after (known : Option KeySet) (deeds : List Deed) : Session :=
  (Session.start known).run deeds

/-- What a record has gathered, answered and handed out. -/
structure Accumulated (known : Option KeySet) (deeds : List Deed) : Prop where
  /-- Used is what some scan delivered before its end or its error, as far as it is known. -/
  gathered : ∀ key, key ∈ (after known deeds).usage.used ↔
    (∀ keys ∈ known, key ∈ keys) ∧ ∃ scan, .scan scan ∈ deeds ∧ key ∈ scan.keys
  contained : ∀ keys ∈ known, ∀ key ∈ (after known deeds).usage.used, key ∈ keys
  kept : ∀ earlier, earlier <+: deeds →
    ∀ key ∈ (after known earlier).usage.used, key ∈ (after known deeds).usage.used
  /-- Other deeds with the same scans, in any order and number, gather the same keys. -/
  unordered : ∀ others, (∀ scan, .scan scan ∈ others ↔ .scan scan ∈ deeds) →
    (after known others).usage.used.Equiv (after known deeds).usage.used
  /-- Each scan is answered by its error, or by the number of keys used after it and not before. -/
  answered : ∀ before scan later, deeds = before ++ .scan scan :: later →
    (after known deeds).answers[(after known before).answers.length]? =
      some (scan.delivered.2.elim (.ok ((after known (before ++ [.scan scan])).usage.used \
        (after known before).usage.used).size) .error)
  /-- What was frozen answers as the record did at that time. -/
  frozen : ∀ before later, deeds = before ++ .freeze :: later →
    ∃ taken, (after known deeds).frozen[(after known before).frozen.length]? = some taken ∧
      taken.size = (after known before).usage.size ∧
      taken.isEmpty = (after known before).usage.isEmpty ∧
      ∀ key, taken.contains key = (after known before).usage.isUsed key ∧
        taken.purges key = (after known before).usage.purges key

theorem after_through (known : Option KeySet) (before : List Deed) (deed : Deed)
    (later : List Deed) :
    after known (before ++ deed :: later) = ((after known before).step deed).run later :=
  List.foldl_append

theorem mem_after {known : Option KeySet} {deeds : List Deed} {key : String} :
    key ∈ (after known deeds).usage.used ↔
      (∀ keys ∈ known, key ∈ keys) ∧ ∃ scan, .scan scan ∈ deeds ∧ key ∈ scan.keys := by
  rw [after, Session.mem_run, isKnown_eq_true_iff]
  exact or_iff_right Std.TreeSet.not_mem_emptyc

/-- However often and in whatever order markup is scanned, with scans that break off among them, the
record holds the known keys of all that was delivered. -/
theorem after_accumulated (known : Option KeySet) (deeds : List Deed) :
    Accumulated known deeds where
  gathered _ := mem_after
  contained keys given key used := (mem_after.mp used).1 keys given
  kept := by
    rintro earlier ⟨later, rfl⟩ key used
    obtain ⟨known, scan, inside, yields⟩ := mem_after.mp used
    exact mem_after.mpr ⟨known, scan, List.mem_append_left later inside, yields⟩
  unordered := by
    intro others same
    apply Std.TreeSet.Equiv.of_forall_mem_iff
    intro key
    simp only [mem_after, same]
  answered := by
    rintro before scan later rfl
    have next : after known (before ++ [.scan scan]) = (after known before).step (.scan scan) :=
      after_through known before _ []
    rw [after_through, next]
    obtain ⟨more, whole⟩ := (Session.run_extends ((after known before).step (.scan scan)) later).1
    rw [← whole]
    simp [Session.step, perform_answer]
  frozen := by
    rintro before later rfl
    refine ⟨(after known before).usage.snapshot, ?_, rfl, rfl, fun key => ⟨rfl, rfl⟩⟩
    rw [after_through]
    obtain ⟨more, whole⟩ := (Session.run_extends ((after known before).step .freeze) later).2
    rw [← whole]
    simp [Session.step]

/-- What a broken scan has recorded is not counted again. -/
example :
    let known : KeySet := .ofList ["px-1", "font-bold"]
    let deeds : List Deed := [.scan (.markup (.ofText "<p class='px-1'>".toList)),
      .scan (.tokens ([.ofText "font-bold".toList], some .notUtf8)),
      .scan (.markup (.ofText "<p class='font-bold px-1 mx-1'>".toList))]
    (after (some known) deeds).answers.map Except.toOption = [some 1, none, some 0] := by
  decide +kernel

end Usage
end UtilityCss
