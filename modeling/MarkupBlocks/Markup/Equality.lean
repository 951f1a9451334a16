/-
When two trees are the same tree.

Properties are a map, so the order in which they were set says nothing about what an element
is: two property lists agree when they are equally long and every name of the one stands for
the same value in the other. Everything else compares as it stands, children in their order.
-/

import MarkupBlocks.Markup.Tree

namespace MarkupBlocks

mutual

/-- Whether two nodes are the same up to the order of properties. -/
def Node.same : Node → Node → Bool
  | .leaf left, .leaf right => left == right
  | .element left, .element right => left.same right
  | _, _ => false

/-- Whether two elements are the same up to the order of properties. -/
def Element.same : Element → Element → Bool
  | ⟨identifier, props, children, selfClosing⟩, other =>
    identifier == other.identifier && selfClosing == other.selfClosing &&
      props.length == other.props.length && propsWithin props other.props &&
      sameChildren children other.children

/-- Whether every property of the first list is set to the same value in the second. -/
def propsWithin : List (String × Node) → List (String × Node) → Bool
  | [], _ => true
  | (name, value) :: rest, others =>
    (match Bindings.get? others name with
      | some other => value.same other
      | none => false) && propsWithin rest others

/-- Whether two lists of children agree node by node. -/
def sameChildren : List Node → List Node → Bool
  | [], [] => true
  | left :: lefts, right :: rights => left.same right && sameChildren lefts rights
  | _, _ => false

end

instance : BEq Node := ⟨Node.same⟩

instance : BEq Element := ⟨Element.same⟩

end MarkupBlocks
