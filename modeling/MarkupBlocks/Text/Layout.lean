/-
The white space of a text that is there for the layout of the source only.

A text falls into maximal runs of white space and maximal runs of other characters. White
space that spans a line break comes from indenting the markup and means nothing, so the
whole run goes; white space within a line separates words and stays as it is. A line feed is
the only character that breaks a line here: a carriage return or a paragraph separator is
just another blank.
-/

import MarkupBlocks.Text.Blank

namespace MarkupBlocks.Text

/-- The maximal runs of a text: neighbours are in one run when both are blank or neither is. -/
def runs (chars : List Char) : List (List Char) :=
  chars.splitBy fun left right => isBlank left == isBlank right

/-- The runs of a text that do not break a line, put together again. A line feed is blank, so a
run that holds one is a run of white space. -/
def stripLayoutChars (chars : List Char) : List Char :=
  ((runs chars).filter fun run => !run.contains '\n').flatten

/-- The text without the white space that breaks lines. -/
def stripLayout (text : String) : String :=
  String.ofList (stripLayoutChars text.toList)

example : stripLayoutChars ['\n', ' ', 'a', ' ', ' ', 'b', '\t', '\n'] = ['a', ' ', ' ', 'b'] := by
  decide

end MarkupBlocks.Text
