import Mathlib.Data.List.DropRight
import UtilityCss.Purge.Markup

/-!
The words of markup that is there all at once: split at the breaks, trimmed at both ends, and the
empty ones dropped. Where markup breaks off, the run that is cut short is no word.
-/
namespace UtilityCss.Markup

/-- Runs trimmed at both ends, without those of which nothing is left. -/
def trimmedRuns {α : Type} (isTrim : α → Bool) (runs : List (List α)) : List (List α) :=
  (runs.map fun run => (run.dropWhile isTrim).rdropWhile isTrim).filter (!·.isEmpty)

def words (octets : Octets) : List Octets :=
  trimmedRuns isTrim (octets.splitOnP isBreak)

/-- The words of the runs that a break follows. -/
def endedWords (octets : Octets) : List Octets :=
  trimmedRuns isTrim (octets.splitOnP isBreak).dropLast

def wordsUpTo (failure : Option IoError) (octets : Octets) : List Octets :=
  match failure with
  | none => words octets
  | some _ => endedWords octets

theorem trimmedRuns_cons {α : Type} (isTrim : α → Bool) (run : List α) (runs : List (List α)) :
    trimmedRuns isTrim (run :: runs) = trimmedRuns isTrim [run] ++ trimmedRuns isTrim runs := by
  rw [← List.singleton_append, trimmedRuns, List.map_append, List.filter_append]
  rfl

theorem trimmedRuns_trimToken (run : Octets) :
    trimmedRuns isTrim [run] = if trimToken run = [] then [] else [trimToken run] := by
  have trimmed : (run.dropWhile isTrim).rdropWhile isTrim = trimToken run := rfl
  simp only [trimmedRuns, List.map_cons, List.map_nil, trimmed]
  split
  next empty => simp [empty]
  next left => simp [left]

section Run
variable {run : Octets} (unbroken : ∀ b ∈ run, isBreak b = false)
include unbroken

/-- A run in front of a break is a word, unless trimming leaves nothing of it. -/
theorem wordsUpTo_run {b : UInt8} (breaks : isBreak b = true) (failure : Option IoError)
    (rest : Octets) :
    wordsUpTo failure (run ++ b :: rest) = trimmedRuns isTrim [run] ++ wordsUpTo failure rest := by
  have split := List.splitOnP_append_cons_of_forall_mem unbroken b breaks rest
  cases failure with
  | none => rw [wordsUpTo, words, split, trimmedRuns_cons, wordsUpTo, words]
  | some error =>
      have more := List.splitOnP_ne_nil isBreak rest
      rw [wordsUpTo, endedWords, split, List.dropLast_cons_of_ne_nil more, trimmedRuns_cons,
        wordsUpTo, endedWords]

theorem words_last : words run = trimmedRuns isTrim [run] := by
  rw [words, List.splitOnP_eq_singleton unbroken]

theorem endedWords_last : endedWords run = [] := by
  rw [endedWords, List.splitOnP_eq_singleton unbroken]
  rfl

end Run

theorem wordsUpTo_breaks {breaks : Octets} (all : ∀ b ∈ breaks, isBreak b = true)
    (failure : Option IoError) (rest : Octets) :
    wordsUpTo failure (breaks ++ rest) = wordsUpTo failure rest := by
  induction breaks with
  | nil => rfl
  | cons b breaks ih =>
      obtain ⟨first, others⟩ := List.forall_mem_cons.mp all
      exact (wordsUpTo_run (List.forall_mem_nil _) first failure _).trans (ih others)

theorem wordsUpTo_onlyBreaks {breaks : Octets} (all : ∀ b ∈ breaks, isBreak b = true)
    (failure : Option IoError) : wordsUpTo failure breaks = [] := by
  have none := wordsUpTo_breaks all failure []
  rw [List.append_nil] at none
  cases failure <;> exact none

end UtilityCss.Markup
