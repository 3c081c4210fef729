import UtilityCss.Proofs.Basic
import UtilityCss.Proofs.Purge.Recording
import UtilityCss.Proofs.Text.Decoding

/-!
The words of markup as text. Breaks and trimmed characters are all ASCII, so splitting and trimming
octets and reading each word gives the words of the text that all octets together are read as, also
where they are not UTF-8.
-/
namespace UtilityCss

namespace Markup

def breakChars : List Char :=
  ['<', '>', '\x22', '\x27', '\x60', '\t', '\n', '\x0b', '\x0c', '\r', ' ']

def trimChars : List Char :=
  ['/', '\\', ':', '=']

/-- The words of a text, split and trimmed at characters as those of markup are at octets. -/
def textWords (text : Text) : List Text :=
  trimmedRuns trimChars.contains (text.splitOnP breakChars.contains)

theorem matches_of_ascii {p : UInt8 → Bool} {chars : List Char}
    (same : ∀ n < 0x100, p (.ofNat n) = (n < 0x80 && chars.contains (Char.ofNat n)))
    (ascii : ∀ c ∈ chars, c.toNat < 0x80 ∧ c ≠ '\x00') : Octets.Matches p chars.contains where
  ascii b low := by simpa [low] using (same b.toNat b.toNat_lt).symm
  octets b held := by
    have := same b.toNat b.toNat_lt
    rw [UInt8.ofNat_toNat, held] at this
    exact of_decide_eq_true (Bool.and_eq_true_iff.mp this.symm).1
  chars c foreign := by
    rw [← Bool.not_eq_true, List.contains_iff_mem]
    intro inside
    obtain ⟨low, some⟩ := ascii c inside
    exact foreign.elim (Nat.not_le.mpr low) some

theorem matches_breaks : Octets.Matches isBreak breakChars.contains :=
  matches_of_ascii (by decide +kernel) (by simp [breakChars])

theorem matches_trims : Octets.Matches isTrim trimChars.contains :=
  matches_of_ascii (by decide +kernel) (by simp [trimChars])

theorem map_lenientText_trimmedRuns (runs : List Octets) :
    (trimmedRuns isTrim runs).map Octets.lenientText =
      trimmedRuns trimChars.contains (runs.map Octets.lenientText) := by
  induction runs with
  | nil => rfl
  | cons run rest ih =>
      have trimmed : ((Octets.lenientText run).dropWhile trimChars.contains).rdropWhile
          trimChars.contains = Octets.lenientText ((run.dropWhile isTrim).rdropWhile isTrim) := by
        rw [matches_trims.dropWhile, matches_trims.rdropWhile]
      rw [trimmedRuns_cons, List.map_append, ih, List.map_cons, trimmedRuns_cons]
      simp only [trimmedRuns, List.map_cons, List.map_nil, trimmed]
      cases (run.dropWhile isTrim).rdropWhile isTrim with
      | nil => simp [Octets.lenientText_nil]
      | cons b rest => simp [Octets.lenientText_cons]

/-- Splitting before reading gives the words that splitting after it does. -/
theorem map_lenientText_words (octets : Octets) :
    (words octets).map Octets.lenientText = textWords octets.lenientText := by
  rw [words, map_lenientText_trimmedRuns, ← matches_breaks.splitOnP, textWords]

theorem infix_of_mem_textWords {word text : Text} (h : word ∈ textWords text) : word <:+: text := by
  rw [textWords, trimmedRuns] at h
  obtain ⟨run, inside, rfl⟩ := List.mem_map.mp (List.mem_of_mem_filter h)
  have left := List.rdropWhile_prefix trimChars.contains (run.dropWhile trimChars.contains)
  have right := List.dropWhile_suffix trimChars.contains (l := run)
  exact left.isInfix.trans (right.isInfix.trans (infix_of_mem_splitOnP inside))

end Markup

/-- What is recorded of all octets where no keys are known is the words of the text they are read
as. So where they are written from a text, every key is a piece of it. -/
theorem Usage.scan_records_textWords (chunks : List Octets) :
    let octets : Octets := chunks.flatten
    ∃ after count, (ofKnown none).scan ⟨chunks, none⟩ = (after, .ok count) ∧
      (∀ key, key ∈ after.used ↔
        ∃ word ∈ Markup.textWords octets.lenientText, key = String.ofList word) ∧
      ∀ text, octets = .ofText text → ∀ key ∈ after.used, key.toList <:+: text := by
  intro octets
  obtain ⟨count, scanned⟩ := @scan_unbroken (ofKnown none) ⟨chunks, none⟩ rfl
  have records (key : String) :
      key ∈ ((ofKnown none).recordTokens (Markup.words octets)).used ↔
        ∃ word ∈ Markup.textWords octets.lenientText, key = String.ofList word := by
    have empty : key ∉ (ofKnown none).used := Std.TreeSet.not_mem_emptyc
    have known : (ofKnown none).isKnown key = true := rfl
    rw [mem_recordTokens, or_iff_right empty, and_iff_right known, ← Markup.map_lenientText_words]
    simp [eq_comm (a := key)]
  refine ⟨_, count, scanned, records, ?_⟩
  intro text written key used
  obtain ⟨word, inside, rfl⟩ := (records key).mp used
  rw [written, Octets.lenientText_ofText] at inside
  rw [String.toList_ofList]
  exact Markup.infix_of_mem_textWords inside

end UtilityCss
