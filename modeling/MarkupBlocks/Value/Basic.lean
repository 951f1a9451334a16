/-
Values of the block language.

A value is a scalar, which is written as it stands, or a block: a prototype with assignments
in order. A name may be assigned more than once, and each assignment is kept: which of them
counts is decided where the block is read, not where it is written.
-/

namespace MarkupBlocks

/-- A value of the block language. -/
inductive Value where
  /-- A literal or an embedded expression, as it is written. -/
  | scalar (text : String)
  /-- An object of a prototype with its assignments. -/
  | block (prototype : String) (assignments : List (String × Value))
deriving Repr

end MarkupBlocks
