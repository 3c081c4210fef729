/-!
Texts are lists of characters, measured in the octets of their UTF-8 form. Blanks are the
characters Unicode calls white space, a larger set than the blanks of a stylesheet.
-/
namespace UtilityCss

abbrev Text := List Char

namespace Text

def size (text : Text) : Nat :=
  text.foldl (fun total c => total + c.utf8Size) 0

theorem foldl_size (n : Nat) (text : Text) :
    text.foldl (fun total c => total + c.utf8Size) n = n + text.size := by
  induction text generalizing n with
  | nil => rfl
  | cons c text ih =>
      rw [size, List.foldl_cons, List.foldl_cons, ih, ih]
      omega

theorem eq_nil_of_size {text : Text} (h : text.size = 0) : text = [] := by
  cases text with
  | nil => rfl
  | cons c text =>
      have positive := c.utf8Size_pos
      rw [size, List.foldl_cons, foldl_size] at h
      omega

theorem size_append (text more : Text) : (text ++ more).size = text.size + more.size := by
  rw [size, List.foldl_append, foldl_size]
  rfl

def isBlank (c : Char) : Bool :=
  let n := c.toNat
  (0x09 ≤ n && n ≤ 0x0D) || n == 0x20 || n == 0x85 || n == 0xA0 || n == 0x1680 ||
    (0x2000 ≤ n && n ≤ 0x200A) || n == 0x2028 || n == 0x2029 || n == 0x202F || n == 0x205F ||
    n == 0x3000

def trimStart (text : Text) : Text :=
  text.dropWhile isBlank

def trimEnd (text : Text) : Text :=
  (text.reverse.dropWhile isBlank).reverse

def trim (text : Text) : Text :=
  trimEnd (trimStart text)

end Text

end UtilityCss
