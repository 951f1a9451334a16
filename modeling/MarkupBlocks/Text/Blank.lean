/-
White space, in the sense of the Unicode property White_Space, and the text that is left
when white space is taken off both ends.

The property is carried as a table of ranges because the character classes of the core
library stop at ASCII, while markup may be indented or padded with any Unicode space. The
set has not changed since Unicode 6.3.
-/

namespace MarkupBlocks.Text

/-- The code points with the property White_Space, as closed ranges in ascending order. -/
def blankRanges : List (Nat × Nat) :=
  [(0x09, 0x0D), (0x20, 0x20), (0x85, 0x85), (0xA0, 0xA0), (0x1680, 0x1680),
    (0x2000, 0x200A), (0x2028, 0x2029), (0x202F, 0x202F), (0x205F, 0x205F),
    (0x3000, 0x3000)]

/-- Whether a character is white space. -/
def isBlank (char : Char) : Bool :=
  blankRanges.any fun range => range.1 ≤ char.toNat && char.toNat ≤ range.2

/-- The characters that are left when the longest blank start and the longest blank end
are dropped. -/
def trimChars (chars : List Char) : List Char :=
  ((chars.dropWhile isBlank).reverse.dropWhile isBlank).reverse

/-- The text without the white space around it. -/
def trim (text : String) : String :=
  String.ofList (trimChars text.toList)

/-- When characters that pass a test have been dropped, the rest starts with one that does not. -/
theorem eq_false_of_mem_head?_dropWhile {test : Char → Bool} {chars : List Char} {first : Char}
    (starts : first ∈ (chars.dropWhile test).head?) : test first = false := by
  have stopped := List.head?_dropWhile_not test chars
  rwa [Option.mem_def.mp starts] at stopped

end MarkupBlocks.Text
