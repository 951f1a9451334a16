/-
What is reported while a tree is turned into a text.

Events tell what was done, in the order in which it was done. They are data, so what a run
reports is part of its answer, and a run that fails keeps what it had reported.
-/

import MarkupBlocks.Markup.Tree

namespace MarkupBlocks

/-- Something worth reporting. -/
inductive Event where
  /-- A child repeats the path of an earlier child and takes its place. -/
  | duplicatePath (path : String)
  /-- The children of an element are sorted: as many distinct paths, as many other children. -/
  | classified (paths content : Nat)
  /-- A slot of an array is written; its node is of the kind given. -/
  | slot (name : String) (kind : Kind)
  /-- A source is converted. The lengths of the source and of the output are counted in bytes
  of UTF-8. -/
  | converted (sourceLength nodes outputLength : Nat)
deriving DecidableEq, Repr

/-- How much an event matters. -/
inductive Severity where
  | trace
  | debug
deriving DecidableEq, Repr

/-- The name of a severity in a report. -/
def Severity.name : Severity → String
  | trace => "trace"
  | debug => "debug"

namespace Event

/-- Only what an author would want to know is more than a trace. -/
def severity : Event → Severity
  | duplicatePath _ | converted _ _ _ => .debug
  | classified _ _ | slot _ _ => .trace

/-- The wording of an event. -/
def message : Event → String
  | duplicatePath _ => "duplicate @path, the later element wins"
  | classified _ _ => "classified children"
  | slot _ _ => "array slot"
  | converted _ _ _ => "converted afx to fusion"

end Event

end MarkupBlocks
