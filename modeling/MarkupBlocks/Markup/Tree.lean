/-
Markup trees, as a parser hands them over.

A node is a leaf or an element; an element has properties in the order in which they were
given, and children. Both the properties and the children hold nodes of any kind. The
functions that build an element bind each property name at most once, so its properties are
a map that remembers its order.
-/

import MarkupBlocks.Bindings
import MarkupBlocks.Markup.Control

namespace MarkupBlocks

/-- The kinds of nodes. -/
inductive Kind where
  | expression
  | literal
  | text
  | boolean
  | element
deriving DecidableEq, Repr

/-- The name under which a parser, a message or a report speaks of a kind. -/
def Kind.name : Kind → String
  | expression => "expression"
  | literal => "string"
  | text => "text"
  | boolean => "boolean"
  | element => "node"

/-- A node without parts. -/
inductive Leaf where
  /-- Code that is embedded in the markup. -/
  | expression (code : String)
  /-- The quoted value of an attribute. -/
  | literal (value : String)
  /-- Text between tags. -/
  | text (value : String)
  /-- The value of an attribute that has none. -/
  | boolean (value : Bool)
deriving DecidableEq, Repr

/-- The kind of a leaf. -/
def Leaf.kind : Leaf → Kind
  | expression _ => .expression
  | literal _ => .literal
  | text _ => .text
  | boolean _ => .boolean

mutual

/-- A node of a markup tree. -/
inductive Node where
  | leaf (content : Leaf)
  | element (root : Element)

/-- An element of a markup tree. -/
structure Element where
  /-- The name of the tag, or the name of a prototype. -/
  identifier : String
  /-- The properties in the order of their names. -/
  props : List (String × Node) := []
  /-- The nodes between the opening and the closing tag. -/
  children : List Node := []
  /-- Whether the tag closes itself. -/
  selfClosing : Bool := false

end

namespace Element

/-- The character that parts the package from the name in the name of a prototype. -/
def separator : Char := ':'

/-- Whether the identifier names a prototype rather than a plain tag. -/
def isQualified (element : Element) : Bool :=
  element.identifier.toList.contains separator

/-- An element that has a name and nothing else. -/
def new (identifier : String) : Element := ⟨identifier, [], [], false⟩

/-- The value of a property. -/
def prop? (element : Element) (name : String) : Option Node :=
  Bindings.get? element.props name

/-- Sets a property. A name that is set already keeps its place. -/
def setProp (element : Element) (name : String) (value : Node) : Element :=
  { element with props := Bindings.insert element.props name value }

/-- Sets properties, one after the other. -/
def setProps (element : Element) (given : List (String × Node)) : Element :=
  given.foldl (fun element prop => element.setProp prop.1 prop.2) element

/-- Adds nodes after the children that are there. -/
def addChildren (element : Element) (children : List Node) : Element :=
  { element with children := element.children ++ children }

end Element

namespace Node

/-- The kind of a node. -/
def kind : Node → Kind
  | .leaf content => content.kind
  | .element _ => .element

/-- The element that a node is. -/
def element? : Node → Option Element
  | .leaf _ => none
  | .element root => some root

/-- The value of a node that is the quoted value of an attribute. -/
def literal? : Node → Option String
  | .leaf (.literal value) => some value
  | _ => none

/-- The payload of a control property. Leaves have none. -/
def payload? (node : Node) (control : Control) : Option Node :=
  node.element?.bind fun element => element.prop? control.name

end Node

mutual

/-- The number of nodes of a tree. -/
def Node.size : Node → Nat
  | .leaf _ => 1
  | .element root => root.size

/-- The number of nodes of an element, itself included. -/
def Element.size : Element → Nat
  | ⟨_, props, children, _⟩ => 1 + propsSize props + childrenSize children

/-- The number of nodes in a list of properties. -/
def propsSize : List (String × Node) → Nat
  | [] => 0
  | (_, value) :: rest => value.size + propsSize rest

/-- The number of nodes in a list of children. -/
def childrenSize : List Node → Nat
  | [] => 0
  | node :: rest => node.size + childrenSize rest

end

theorem Element.size_eq (element : Element) :
    element.size = 1 + propsSize element.props + childrenSize element.children := by
  cases element
  rfl

theorem size_le_propsSize {name : String} {value : Node} {props : List (String × Node)}
    (member : (name, value) ∈ props) : value.size ≤ propsSize props := by
  induction props with
  | nil => exact absurd member List.not_mem_nil
  | cons head rest inductionHypothesis =>
    simp only [propsSize]
    rcases List.mem_cons.mp member with same | later
    · rw [← same]; exact Nat.le_add_right _ _
    · exact Nat.le_trans (inductionHypothesis later) (Nat.le_add_left _ _)

theorem size_le_childrenSize {node : Node} {nodes : List Node} (member : node ∈ nodes) :
    node.size ≤ childrenSize nodes := by
  induction nodes with
  | nil => exact absurd member List.not_mem_nil
  | cons head rest inductionHypothesis =>
    simp only [childrenSize]
    rcases List.mem_cons.mp member with same | later
    · rw [← same]; exact Nat.le_add_right _ _
    · exact Nat.le_trans (inductionHypothesis later) (Nat.le_add_left _ _)

/-- The children of an element that pass a test are fewer nodes than the element. -/
theorem childrenSize_filter_lt (element : Element) (keep : Node → Bool) :
    childrenSize (element.children.filter keep) < element.size := by
  have smaller : ∀ nodes : List Node,
      childrenSize (nodes.filter keep) ≤ childrenSize nodes := by
    intro nodes
    induction nodes with
    | nil => exact Nat.le_refl _
    | cons head rest inductionHypothesis =>
      simp only [List.filter_cons]
      split <;> simp only [childrenSize] <;> omega
  have bound := smaller element.children
  rw [element.size_eq]
  omega

end MarkupBlocks
