/-
What can be wrong with a markup tree.

A fault names its cause; its wording is kept in one place. Faults found while a tree is
turned into a value are bad payloads of control properties and nesting that is too deep. A
kind of node that is not known cannot occur in a tree of this library: that fault is there
for parsers and tools that report in the same words.
-/

import MarkupBlocks.Markup.Control

namespace MarkupBlocks

/-- A reason why a tree has no value. -/
inductive Fault where
  /-- A node is of a kind that nobody knows how to write. -/
  | unknownKind (kind : String)
  /-- The payload of a control property is not a quoted value but a node of the kind found. -/
  | payload (control : Control) (found : String)
  /-- Elements are nested deeper than the limit allows. -/
  | tooDeep (limit : Nat)
deriving DecidableEq, Repr

/-- The wording of a fault. -/
def Fault.message : Fault → String
  | unknownKind kind => "ast type `" ++ kind ++ "` is unknown."
  | payload control found =>
    "`" ++ control.name ++ "` only supports string payloads, `" ++ found ++ "` found."
  | tooDeep limit => "element nesting exceeds the limit of " ++ toString limit ++ " levels."

end MarkupBlocks
