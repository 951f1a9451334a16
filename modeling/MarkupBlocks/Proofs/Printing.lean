/-
The characters of a written outline.

The written form of values is put together from strings. What is proved about it character by
character starts from the equations here, which take it apart into lists of characters.
-/

import MarkupBlocks.Proofs.Outline
import MarkupBlocks.Value.Print

namespace MarkupBlocks

/-- The characters of assignments on lines with the indentation given. -/
def assignmentChars (indentation : String) (assignments : List (String × Outline)) : List Char :=
  (printAssignments indentation (outlinedValues assignments)).toList

/-- The characters of an outline that starts on a line with the indentation given. -/
def Outline.chars (indentation : String) (outline : Outline) : List Char :=
  (outline.value.print indentation).toList

section Characters

variable (indentation : String)

theorem Outline.chars_leaf (content : Leaf) :
    (Outline.leaf content).chars indentation = content.print.toList := by
  rw [Outline.chars, Outline.value, Value.print]

theorem Outline.chars_block (prototype : String) (assignments : List (String × Outline)) :
    (Outline.block prototype assignments).chars indentation =
      prototype.toList ++ [' ', '\x7b', '\n'] ++
        assignmentChars (indentation ++ indentStep) assignments ++ indentation.toList ++
          ['\x7d'] := by
  rw [Outline.chars, Outline.value, Value.print]
  simp only [String.toList_append]
  rfl

theorem assignmentChars_nil : assignmentChars indentation [] = [] := rfl

theorem assignmentChars_cons (name : String) (outline : Outline)
    (rest : List (String × Outline)) :
    assignmentChars indentation ((name, outline) :: rest) =
      indentation.toList ++ name.toList ++ [' ', '=', ' '] ++ outline.chars indentation ++
        ['\n'] ++ assignmentChars indentation rest := by
  rw [assignmentChars, outlinedValues, printAssignments]
  simp only [String.toList_append]
  rfl

/-! ### The characters of leaves -/

theorem toList_print_expression (code : String) :
    (Leaf.expression code).print.toList = '$' :: '\x7b' :: code.toList ++ ['\x7d'] := by
  rw [Leaf.print]
  simp only [String.toList_append]
  rfl

theorem toList_print_literal (value : String) :
    (Leaf.literal value).print.toList =
      '\'' :: value.toList.flatMap Text.escapeAttribute ++ ['\''] := by
  rw [Leaf.print, Text.quoteAttribute, Text.quoted, String.toList_ofList]

theorem toList_print_text (value : String) :
    (Leaf.text value).print.toList = '\'' :: value.toList.flatMap Text.escapeRaw ++ ['\''] := by
  rw [Leaf.print, Text.quoteRaw, Text.quoted, String.toList_ofList]

theorem toList_print_boolean (value : Bool) :
    (Leaf.boolean value).print.toList = ['t', 'r', 'u', 'e'] := by
  rw [Leaf.print]
  rfl

/-- The characters of a decimal numeral are digits. -/
theorem isDigit_of_mem_toString {number : Nat} {char : Char}
    (member : char ∈ (toString number).toList) : char.isDigit = true := by
  have numeral : (toString number).toList = Nat.toDigits 10 number := Nat.toList_repr
  rw [numeral] at member
  exact Nat.isDigit_of_mem_toDigits (by decide) (by decide) member

end Characters

end MarkupBlocks
