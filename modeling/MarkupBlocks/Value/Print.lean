/-
The written form of values.

A block opens at the end of its first line, has one assignment after another, and closes on
a line of its own. The indentation is that of the line on which the value starts: closing
lines have it, and assignments are one step deeper. The first line is never indented,
because something may stand before the value.
-/

import MarkupBlocks.Value.Basic

namespace MarkupBlocks

/-- What one level of nesting adds to the indentation. -/
def indentStep : String := "    "

mutual

/-- A value as it is written on a line with the indentation given. -/
def Value.print (indentation : String) : Value → String
  | .scalar text => text
  | .block prototype assignments =>
    prototype ++ " \x7b\n" ++ printAssignments (indentation ++ indentStep) assignments ++
      indentation ++ "\x7d"

/-- Assignments as they are written, each on a line with the indentation given. -/
def printAssignments (indentation : String) : List (String × Value) → String
  | [] => ""
  | (name, value) :: rest =>
    indentation ++ name ++ " = " ++ value.print indentation ++ "\n" ++
      printAssignments indentation rest

end

end MarkupBlocks
