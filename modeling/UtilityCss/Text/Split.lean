import UtilityCss.Text.Basic

/-!
Splitting at every occurrence of a separator. There is one part more than there are separators.
-/
namespace UtilityCss

variable {α : Type} [BEq α]

/-- The parts so far and the current one are newest first. -/
def splitFrom (sep : α) (parts : List (List α)) (part : List α) : List α → List (List α)
  | [] => (part.reverse :: parts).reverse
  | x :: rest =>
    if x == sep then splitFrom sep (part.reverse :: parts) [] rest
    else splitFrom sep parts (x :: part) rest

def splitAt (sep : α) (xs : List α) : List (List α) :=
  splitFrom sep [] [] xs

end UtilityCss
