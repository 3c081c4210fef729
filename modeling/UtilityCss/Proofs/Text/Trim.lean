import Mathlib.Data.List.DropRight
import UtilityCss.Text.Basic

/-!
Trimming of texts: what stays as it is and how much may go.
-/
namespace UtilityCss.Text

theorem trimEnd_eq_self {text : Text} (ends : ∀ c ∈ text.getLast?, isBlank c = false) :
    trimEnd text = text := by
  rw [trimEnd]
  cases h : text.reverse with
  | nil => simpa using h.symm
  | cons c rest =>
      have blank := ends c (by simp [← List.head?_reverse, h])
      rw [List.dropWhile_cons, blank, ← h]
      simp

theorem trimEnd_append_blanks (text : Text) :
    ∃ blanks, trimEnd text ++ blanks = text ∧ ∀ c ∈ blanks, isBlank c = true :=
  ⟨text.rtakeWhile isBlank, List.rdropWhile_append_rtakeWhile, fun _ => List.mem_rtakeWhile_imp⟩

theorem trimEnd_eq_self_iff {text : Text} :
    trimEnd text = text ↔ ∀ c ∈ text.getLast?, isBlank c = false := by
  refine ⟨fun same c found => ?_, trimEnd_eq_self⟩
  obtain ⟨front, rfl⟩ := List.getLast?_eq_some_iff.mp found
  have ends := List.rdropWhile_eq_self_iff.mp same (by simp)
  simpa using ends

theorem trimEnd_append {blanks : Text} (h : ∀ c ∈ blanks, isBlank c) (text : Text) :
    trimEnd (text ++ blanks) = trimEnd text := by
  rw [trimEnd, trimEnd, List.reverse_append, List.dropWhile_append_of_pos]
  simpa using h

theorem length_trimEnd_le (text : Text) : (trimEnd text).length ≤ text.length := by
  have size : text.reverse.length = text.length := List.length_reverse
  rw [trimEnd, List.length_reverse, ← size]
  exact (List.dropWhile_sublist _).length_le

/-- Nothing of a text is lost when it is trimmed, if no blank is at either end. -/
theorem trim_eq_self {text : Text} (first : ∀ c ∈ text.head?, isBlank c = false)
    (last : ∀ c ∈ text.getLast?, isBlank c = false) : trim text = text := by
  have start : trimStart text = text := by
    cases text with
    | nil => rfl
    | cons c text => simp [trimStart, first c rfl]
  rw [trim, start, trimEnd_eq_self last]

end UtilityCss.Text
