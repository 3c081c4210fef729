import UtilityCss.Proofs.Purge.Streaming
import UtilityCss.Purge.Usage

/-!
What ends up in a record of used keys: the keys that tokens stand for, as far as they are known. The
known keys of a stylesheet are those of all its selector groups, so no key of a ruleset is missed.
-/
namespace UtilityCss

namespace Markup

def allWords (feeds : List Feed) : List Octets :=
  feeds.flatMap fun feed => words feed.octets

/-- The keys that the words of all markup stand for. -/
def keys (feeds : List Feed) : List String :=
  (allWords feeds).map fun word => String.ofList word.lenientText

end Markup

namespace PurgeKey

theorem mem_foldl_ofEvent (events : List Event) (keys : KeySet) (key : String) :
    key ∈ events.foldl (fun keys event => (ofEvent? event).elim keys keys.insert) keys ↔
      key ∈ keys ∨ ∃ e ∈ events, ofEvent? e = some key := by
  induction events generalizing keys with
  | nil => simp
  | cons e rest ih =>
      rw [List.foldl_cons, ih]
      cases found : ofEvent? e with
      | none => simp [found]
      | some k =>
          simp only [Option.elim_some, Std.TreeSet.mem_insert, Std.LawfulEqCmp.compare_eq_iff_eq,
            List.exists_mem_cons_iff, found, Option.some.injEq]
          rw [or_comm (a := k = key), or_assoc]

theorem mem_ofEvents {events : List Event} {key : String} :
    key ∈ ofEvents events ↔ ∃ e ∈ events, ofEvent? e = some key := by
  simp [ofEvents, mem_foldl_ofEvent]

end PurgeKey

namespace Usage

theorem known_record (usage : Usage) (key : String) : (usage.record key).known = usage.known := by
  simp only [record]
  split <;> rfl

theorem mem_record {usage : Usage} {key other : String} :
    other ∈ (usage.record key).used ↔
      other ∈ usage.used ∨ usage.isKnown other = true ∧ key = other := by
  simp only [record]
  split
  next known =>
    simp only [Std.TreeSet.mem_insert, Std.LawfulEqCmp.compare_eq_iff_eq]
    rw [or_comm, and_iff_right_of_imp fun same => same ▸ known]
  next unknown =>
    refine (or_iff_left ?_).symm
    rintro ⟨known, rfl⟩
    exact unknown known

theorem isKnown_record (usage : Usage) (key : String) :
    (usage.record key).isKnown = usage.isKnown := by
  funext other
  simp only [isKnown, known_record]

/-- Recording keeps to the known keys and loses nothing. -/
theorem mem_recordTokens {usage : Usage} {tokens : List Octets} {key : String} :
    key ∈ (usage.recordTokens tokens).used ↔
      key ∈ usage.used ∨ usage.isKnown key = true ∧
        key ∈ tokens.map fun token => String.ofList token.lenientText := by
  rw [recordTokens]
  induction tokens generalizing usage with
  | nil => simp
  | cons token rest ih =>
      rw [List.foldl_cons, ih, mem_record, isKnown_record, List.map_cons, List.mem_cons, or_assoc,
        ← and_or_left, eq_comm (a := key)]

theorem isUsed_recordTokens {known : KeySet} {key : String} (h : key ∈ known)
    (tokens : List Octets) :
    ((ofKnown (some known)).recordTokens tokens).isUsed key =
      (tokens.map fun token => String.ofList token.lenientText).contains key := by
  have known : (ofKnown (some known)).isKnown key = true := h
  rw [Bool.eq_iff_iff, List.contains_iff_mem, isUsed, Std.TreeSet.contains_iff_mem,
    mem_recordTokens, and_iff_right known]
  exact or_iff_right Std.TreeSet.not_mem_emptyc

theorem recordTokens_append (usage : Usage) (tokens more : List Octets) :
    usage.recordTokens (tokens ++ more) = (usage.recordTokens tokens).recordTokens more :=
  List.foldl_append

/-- Scans sources one after the other, up to the first that breaks off. -/
def scanAll (usage : Usage) (feeds : List Feed) : Except IoError Usage :=
  feeds.foldlM (fun usage feed => do
    let (after, count) := usage.scan feed
    let _ ← count
    return after) usage

theorem scan_unbroken (usage : Usage) {feed : Feed} (unbroken : feed.failure = none) :
    ∃ count, usage.scan feed = (usage.recordTokens (Markup.words feed.octets), .ok count) := by
  refine ⟨(usage.scanTokens (Markup.words feed.octets)).2, ?_⟩
  rw [scan, Markup.tokens_unbroken unbroken]
  rfl

/-- Sources that do not break off are scanned as if they were one list of words. -/
theorem scanAll_unbroken (usage : Usage) {feeds : List Feed}
    (unbroken : ∀ feed ∈ feeds, feed.failure = none) :
    usage.scanAll feeds = .ok (usage.recordTokens (Markup.allWords feeds)) := by
  rw [scanAll]
  induction feeds generalizing usage with
  | nil => rfl
  | cons feed rest ih =>
      obtain ⟨whole, unbroken⟩ := List.forall_mem_cons.mp unbroken
      obtain ⟨count, scanned⟩ := usage.scan_unbroken whole
      rw [List.foldlM_cons, scanned, Markup.allWords, List.flatMap_cons, recordTokens_append]
      exact ih _ unbroken

theorem ofDistribution_parsed {dist : Distribution} {css : Text} (unkeyed : dist.purgeKeys = none)
    (opens : dist.read .utilities [] = .ok css)
    (parses : (Reading.ofText css false).error = none) :
    ofDistribution dist =
      .ok (.ofKnown (some (PurgeKey.ofEvents (Reading.ofText css false).events))) := by
  rw [Distribution.read] at opens
  cases source : dist.openSection .utilities with
  | error error => simp [source] at opens; cases opens
  | ok feeds =>
      rw [source] at opens
      have text : (feeds []).text = .ok css := opens
      simp [ofDistribution, PurgeKey.ofDistribution, unkeyed, source, PurgeKey.ofFeed, text,
        PurgeKey.ofStyles, parses]

end Usage

end UtilityCss
