/-
How markup is spelled in the block language.

A plain tag has no prototype of its own: it is an object of the tag prototype, which carries
the name of the tag and keeps the properties of the element apart as attributes. An element
with a qualified name is an object of that prototype, and its properties are the properties
of the object. A meta property speaks about the object whatever that is, so its name is never
changed.
-/

import MarkupBlocks.Markup.Children
import MarkupBlocks.Text.Quoted
import MarkupBlocks.Value.Basic

namespace MarkupBlocks

/-- The prototype of plain tags. -/
def tagPrototype : String := "Neos.Fusion:Tag"

/-- The prototype of several values in a row. -/
def arrayPrototype : String := "Neos.Fusion:Array"

/-- The property for the name of a plain tag. -/
def tagNameProp : String := "tagName"

/-- The property that says that a plain tag closes itself. -/
def selfClosingProp : String := "selfClosingTag"

/-- What stands before the name of an attribute of a plain tag. -/
def attributeScope : String := "attributes."

/-- The property that receives the content of an element that names no other. -/
def contentProp : String := "content"

/-- The literal that stands for no content at all. -/
def emptyLiteral : String := Text.quoteRaw ""

/-- A leaf as it is written. A boolean says that an attribute is there, so it is written as
true whatever it carries. -/
def Leaf.print : Leaf → String
  | expression code => "$\x7b" ++ code ++ "\x7d"
  | literal value => Text.quoteAttribute value
  | text value => Text.quoteRaw value
  | boolean _ => "true"

namespace Element

/-- The prototype of the object that an element is. -/
def prototype (element : Element) : String :=
  if element.isQualified then element.identifier else tagPrototype

/-- What a plain tag says about itself before its attributes. -/
def tagProps (element : Element) : List (String × Leaf) :=
  if element.isQualified then []
  else
    (tagNameProp, .literal element.identifier) ::
      if element.selfClosing then [(selfClosingProp, .boolean true)] else []

/-- The name under which a property of the element is assigned. -/
def assignedName (element : Element) (name : String) : String :=
  if element.isQualified || isMeta name then name else attributeScope ++ name

/-- The properties that are assigned, under their assigned names: all but control
properties. -/
def assignedProps (element : Element) : List (String × Node) :=
  (element.props.filter fun prop => !Control.isReserved prop.1).map fun prop =>
    (element.assignedName prop.1, prop.2)

/-- The name of the property that receives the content. -/
def contentName (element : Element) : Except Fault String :=
  return (← element.readControl .children).getD contentProp

end Element

/-- The name of the slot of one of several siblings: its key, or its position when it has
none. -/
def slotName (node : Node) (position : Nat) : Except Fault String :=
  return (← node.readControl .key).getD (toString position)

end MarkupBlocks
