/-
Markup as text of the block language.

To render is to take the value of the markup and write it. Depth is counted from the markup
that is handed in, so a part of a tree that is rendered on its own starts anew.
-/

import MarkupBlocks.Value.OfMarkup
import MarkupBlocks.Value.Print

namespace MarkupBlocks

/-- How markup is rendered. -/
structure Settings where
  /-- What stands before each line of a block but the first. The lines of a leaf are left as they
  are. -/
  indentation : String := ""
  /-- How deep elements may be nested. Without a limit they may be nested at any depth. -/
  maxDepth : Option Nat := none
deriving DecidableEq, Repr

namespace Settings

/-- Renders a node on a line with the indentation given. -/
def renderNode (settings : Settings) (node : Node) (indentation : String) : Run String :=
  return (← Value.ofNode settings.maxDepth 0 node).print indentation

/-- Renders an element on a line with the indentation given. -/
def renderElement (settings : Settings) (element : Element) (indentation : String) :
    Run String :=
  return (← Value.ofElement settings.maxDepth 0 element).print indentation

/-- Renders siblings as one value on a line with the indentation given. -/
def renderSiblings (settings : Settings) (nodes : List Node) (indentation : String) :
    Run String :=
  return (← Value.ofSiblings settings.maxDepth 0 (Siblings.significant nodes)).print indentation

/-- Renders a document, which is a list of siblings. -/
def render (settings : Settings) (nodes : List Node) : Run String :=
  settings.renderSiblings nodes settings.indentation

end Settings

end MarkupBlocks
