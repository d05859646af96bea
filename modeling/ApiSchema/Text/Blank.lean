import ApiSchema.Text.Basic

set_option autoImplicit false

namespace ApiSchema.Text

/-- The code points with the property White_Space, as ranges with both ends in. -/
def blankRanges : List (Nat × Nat) :=
  [(0x09, 0x0D), (0x20, 0x20), (0x85, 0x85), (0xA0, 0xA0), (0x1680, 0x1680), (0x2000, 0x200A),
    (0x2028, 0x2029), (0x202F, 0x202F), (0x205F, 0x205F), (0x3000, 0x3000)]

def isBlank (c : Char) : Bool :=
  blankRanges.any fun (first, last) => first ≤ c.toNat && c.toNat ≤ last

/-- The text without the blanks at its two ends. -/
def trim (text : Text) : Text :=
  ((text.dropWhile isBlank).reverse.dropWhile isBlank).reverse

theorem trim_length_le (text : Text) : (trim text).length ≤ text.length := by
  have front := (List.dropWhile_sublist (l := text) isBlank).length_le
  have back := (List.dropWhile_sublist (l := (text.dropWhile isBlank).reverse) isBlank).length_le
  simp only [List.length_reverse] at back
  simp only [trim, List.length_reverse]
  omega

end ApiSchema.Text
