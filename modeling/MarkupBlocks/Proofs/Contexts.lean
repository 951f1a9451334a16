/-
A place in a tree.

A context is a tree with one place left open: a node goes there, or an element with a property or
a child that is a context again. What two nodes have in common they give to every tree that they
are put into, as long as it passes from the properties and children of an element to the element.
-/

import MarkupBlocks.Proofs.Rewriting

namespace MarkupBlocks

/-- A tree with one place left open for a node. -/
inductive Context where
  | here
  /-- The place is in the value of a property. -/
  | prop (identifier : String) (before : List (String × Node)) (name : String) (inner : Context)
      (after : List (String × Node)) (children : List Node) (selfClosing : Bool)
  /-- The place is in a child. -/
  | child (identifier : String) (props : List (String × Node)) (before : List Node)
      (inner : Context) (after : List Node) (selfClosing : Bool)

/-- Puts a node into the place. -/
def Context.fill (node : Node) : Context → Node
  | here => node
  | prop identifier before name inner after children selfClosing =>
    .element ⟨identifier, before ++ (name, inner.fill node) :: after, children, selfClosing⟩
  | child identifier props before inner after selfClosing =>
    .element ⟨identifier, props, before ++ inner.fill node :: after, selfClosing⟩

/-- What is rewritten to the same is rewritten to the same in every context. -/
theorem Context.rewrite_fill {change : Element → Element} {left right : Node}
    (same : left.rewrite change = right.rewrite change) (context : Context) :
    (context.fill left).rewrite change = (context.fill right).rewrite change := by
  induction context with
  | here => exact same
  | prop identifier before name inner after children selfClosing inductionHypothesis =>
    rw [fill, fill, Node.rewrite_element, Node.rewrite_element]
    simp only [Element.rewriteParts, List.map_append, List.map_cons, inductionHypothesis]
  | child identifier props before inner after selfClosing inductionHypothesis =>
    rw [fill, fill, Node.rewrite_element, Node.rewrite_element]
    simp only [Element.rewriteParts, List.map_append, List.map_cons, inductionHypothesis]

end MarkupBlocks
