import UtilityCss.Proofs.Convert.Purging
import UtilityCss.Proofs.Purge.Recording

/-!
Known keys do not change what is kept. A run asks its checker only for keys of rulesets of the
utilities, and all of these are known, so a record that keeps to the known keys answers as one of
all words would.
-/
namespace UtilityCss

/-- Sections that read the same each time, whatever has been output by then. -/
def Distribution.Steady (dist : Distribution) : Prop :=
  ∀ part sent sent', dist.read part sent = dist.read part sent'

namespace Convert

/-- Checkers that give up the same rulesets of a word. -/
def Agree (events : List Event) (checker checker' : Option (String → Bool)) : Prop :=
  ∀ selector, .beginRuleset selector ∈ events → purges checker selector = purges checker' selector

section Walk
variable {settings : Settings} {source : String} {checker checker' : Option (String → Bool)}
  {expand : List Token → Progress → Except Halt Progress}

theorem walkEvent_congr {e : Event} (agree : Agree [e] checker checker')
    (state : Place × Progress) :
    walkEvent settings source checker expand state e =
      walkEvent settings source checker' expand state e := by
  simp only [walkEvent]
  split
  · rfl
  · refine event_congr (fun selector same _ => agree selector ?_) state.2
    simp [same]

theorem foldlM_congr {events : List Event} (agree : Agree events checker checker')
    (state : Place × Progress) :
    events.foldlM (walkEvent settings source checker expand) state =
      events.foldlM (walkEvent settings source checker' expand) state := by
  induction events generalizing state with
  | nil => rfl
  | cons e rest ih =>
      have first : Agree [e] checker checker' := fun selector h => agree selector (by simp_all)
      have others : Agree rest checker checker' := fun selector h => agree selector (by simp [h])
      rw [List.foldlM_cons, List.foldlM_cons, walkEvent_congr first]
      exact congrArg _ (funext fun state => ih others state)

theorem walkReading_congr {reading : Reading} (agree : Agree reading.events checker checker')
    (p : Progress) :
    walkReading settings source checker expand reading p =
      walkReading settings source checker' expand reading p := by
  rw [walkReading, foldlM_congr agree, walkReading]

theorem expandSection_congr {walkSection walkSection' : Section → Text → Progress →
      Except Halt Progress} {values : List Token} {p : Progress}
    (same : ∀ part css, settings.dist.read part p.output.sent = .ok css →
      walkSection part css p = walkSection' part css p) :
    expandSection settings source walkSection values p =
      expandSection settings source walkSection' values p := by
  rw [expandSection, expandSection]
  cases sectionOf source values with
  | error halt => rfl
  | ok part =>
      show (readSection settings source part p >>= fun css => walkSection part css p) =
        (readSection settings source part p >>= fun css => walkSection' part css p)
      cases read : settings.dist.read part p.output.sent with
      | error error => simp only [readSection, read]; rfl
      | ok css =>
          simp only [readSection, read]
          exact same part css read

end Walk

theorem walk_congr {dist : Distribution} {purge purge' : String → Bool}
    (utilities : ∀ sent css, dist.read .utilities sent = .ok css →
      Agree (wholeSection .utilities css).events (some purge) (some purge'))
    (budget : Nat) (source : String) {checker checker' : Option (String → Bool)}
    {reading : Reading} (agree : Agree reading.events checker checker') (p : Progress) :
    walk ⟨dist, some purge⟩ wholeSection budget source checker reading p =
      walk ⟨dist, some purge'⟩ wholeSection budget source checker' reading p := by
  induction budget generalizing source checker checker' reading p with
  | zero => rfl
  | succ budget ih =>
      simp only [walk]
      rw [walkReading_congr agree]
      have sections : expandSection ⟨dist, some purge⟩ source
            (fun part css => walk ⟨dist, some purge⟩ wholeSection budget part.sourceName
              (sectionChecker ⟨dist, some purge⟩ part) (wholeSection part css)) =
          expandSection ⟨dist, some purge'⟩ source
            (fun part css => walk ⟨dist, some purge'⟩ wholeSection budget part.sourceName
              (sectionChecker ⟨dist, some purge'⟩ part) (wholeSection part css)) := by
        funext values p
        refine expandSection_congr fun part css read => ih part.sourceName ?_ p
        cases part with
        | base | components => exact fun _ _ => rfl
        | utilities => exact utilities p.output.sent css read
      rw [sections]
      rfl

theorem runWith_congr {dist : Distribution} {purge purge' : String → Bool}
    (utilities : ∀ sent css, dist.read .utilities sent = .ok css →
      Agree (wholeSection .utilities css).events (some purge) (some purge'))
    (budget : Nat) (inputs : List Input) (room : Option Room) :
    runWith ⟨dist, some purge⟩ wholeSection budget inputs room =
      runWith ⟨dist, some purge'⟩ wholeSection budget inputs room := by
  have step : walkInput ⟨dist, some purge⟩ wholeSection budget =
      walkInput ⟨dist, some purge'⟩ wholeSection budget := by
    funext p input
    simp only [walkInput]
    split
    · rfl
    · exact walk_congr utilities budget input.name (fun _ _ => rfl) p
  rw [runWith, runWith, step]

/-- A run with the record of all markup, or a snapshot of it, as its checker ends as the run that
gives up the keys that no word of the markup stands for. -/
theorem run_scanned_eq_run_words {dist : Distribution} {css : Text} {feeds : List Feed}
    (unkeyed : dist.purgeKeys = none) (steady : dist.Steady)
    (opens : dist.read .utilities [] = .ok css)
    (parses : (Reading.ofText css false).error = none)
    (unbroken : ∀ feed ∈ feeds, feed.failure = none) :
    ∃ usage scanned, Usage.ofDistribution dist = .ok usage ∧ usage.scanAll feeds = .ok scanned ∧
      ∀ purge, purge = scanned.purges ∨ purge = scanned.snapshot.purges →
      ∀ (budget : Nat) (inputs : List Input) (room : Option Room),
        runWith ⟨dist, some purge⟩ wholeSection budget inputs room =
          runWith ⟨dist, some fun key => !(Markup.keys feeds).contains key⟩ wholeSection budget
            inputs room := by
  refine ⟨_, _, Usage.ofDistribution_parsed unkeyed opens parses, Usage.scanAll_unbroken _ unbroken,
    fun purge recorded budget inputs room => ?_⟩
  refine runWith_congr (fun sent css' read selector begins => ?_) budget inputs room
  have same : css' = css := Except.ok.inj (read.symm.trans ((steady _ sent []).trans opens))
  subst same
  simp only [purges]
  cases keyed : PurgeKey.ofSelector? selector with
  | none => rfl
  | some key =>
      have known : key ∈ PurgeKey.ofEvents (Reading.ofText css' false).events :=
        PurgeKey.mem_ofEvents.mpr ⟨_, begins, keyed⟩
      have used := Usage.isUsed_recordTokens known (Markup.allWords feeds)
      obtain rfl | rfl := recorded <;> exact congrArg not used

/-- Markup that comes in two chunks and names one of two utilities keeps that one alone. -/
theorem run_scanned_inMemory :
    let dist : Distribution := .inMemory (fun _ => some ".a\x7b\x7d.b\x7b\x7d".toList) none
    let markup : Feed := ⟨[[0x3C, 0x61], [0x3E]], none⟩
    let inputs : List Input := [⟨"in", .steady (.ofText "@tailwind utilities;".toList), false⟩]
    ∃ usage scanned, Usage.ofDistribution dist = .ok usage ∧
      usage.scanAll [markup] = .ok scanned ∧
      (runWith ⟨dist, some scanned.snapshot.purges⟩ wholeSection walkBudget inputs none).map
        Output.text = .ok ".a\x7b\x7d".toList := by
  intro dist markup inputs
  have opens : dist.read .utilities [] = .ok ".a\x7b\x7d.b\x7b\x7d".toList := by decide +kernel
  have parses : (Reading.ofText ".a\x7b\x7d.b\x7b\x7d".toList false).error = none := by
    decide +kernel
  have unbroken : ∀ feed ∈ [markup], feed.failure = none := by simp [markup]
  obtain ⟨usage, scanned, known, recorded, same⟩ :=
    run_scanned_eq_run_words rfl (fun _ _ _ => rfl) opens parses unbroken
  refine ⟨usage, scanned, known, recorded, ?_⟩
  rw [same _ (.inr rfl)]
  decide +kernel

end Convert

end UtilityCss
