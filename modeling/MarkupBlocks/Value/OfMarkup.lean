/-
The value of a markup tree.

A leaf is a scalar. An element is a block: what a plain tag says about itself, then the
properties, then the routed children, then the content. Siblings are a single value: none of
them is the empty literal, one is itself, several are the slots of an array.

The order of the work is part of the meaning, because the first fault ends the run and every
event is reported when its step is done. The run counts the elements it is inside of. An
element that would be one too many is a fault before anything is read of it, and arrays do
not count.

Every part that the run comes to has a value or ends the run. A leaf is never written as nothing,
as an empty text is still an empty literal. So the case of a part that has no value, and would be
passed over, is left out: no markup leads to it.
-/

import MarkupBlocks.Markup.Siblings
import MarkupBlocks.Value.Names

namespace MarkupBlocks

/-- Fails when an element at a level, the outermost at level one, is beyond the limit. -/
def checkLevel (limit : Option Nat) (level : Nat) : Run Unit :=
  match limit with
  | none => pure ()
  | some limit => if limit < level then Traced.fail (.tooDeep limit) else pure ()

/-! ### Parts are smaller than the whole -/

theorem size_lt_of_mem_assignedProps {element : Element} {name : String} {value : Node}
    (member : (name, value) ∈ element.assignedProps) : value.size < element.size := by
  obtain ⟨prop, present, renamed⟩ := List.mem_map.mp member
  have bound : prop.2.size ≤ _ := size_le_propsSize (List.mem_filter.mp present).1
  rw [(Prod.mk.inj renamed).2] at bound
  rw [element.size_eq]
  omega

theorem size_lt_of_mem_routed {element : Element} {path : String} {child : Node}
    (member : (path, child) ∈ Children.routed element.children) : child.size < element.size := by
  have bound := size_le_childrenSize (Children.mem_of_mem_routed member)
  rw [element.size_eq]
  omega

theorem childrenSize_significant_content_lt (element : Element) :
    childrenSize (Siblings.significant (Children.content element.children)) < element.size :=
  Nat.lt_of_le_of_lt (Siblings.childrenSize_significant_le _) (childrenSize_filter_lt element _)

theorem size_le_of_mem_zipIdx {node : Node} {position start : Nat} {nodes : List Node}
    (member : (node, position) ∈ nodes.zipIdx start) : node.size ≤ childrenSize nodes :=
  size_le_childrenSize (List.fst_mem_of_mem_zipIdx member)

/-! ### Steps of the run -/

/-- Assigns the value of a run. -/
def assign (name : String) (value : Run Value) : Run (String × Value) :=
  return (name, ← value)

/-- Assigns the value of the content of an element, unless there is no content at all. The
name is read before the content is. -/
def assignContent (element : Element) (value : Run Value) : Run (List (String × Value)) :=
  if (Children.content element.children).isEmpty then pure []
  else do
    let name ← Traced.ofExcept element.contentName
    return [(name, ← value)]

/-- Fills the slot of a node: reads its name, runs the node, and reports the slot. -/
def fillSlot (node : Node) (position : Nat) (value : Run Value) : Run (String × Value) := do
  let name ← Traced.ofExcept (slotName node position)
  let result ← value
  Traced.report (.slot name node.kind)
  return (name, result)

/-! ### The run over a tree -/

namespace Value

mutual

/-- The value of a node inside of as many elements as the depth says. -/
def ofNode (limit : Option Nat) (depth : Nat) : Node → Run Value
  | .leaf leaf => pure (.scalar leaf.print)
  | .element element => ofElement limit depth element
termination_by node => 3 * node.size + 1
decreasing_by simp only [Node.size]; omega

/-- The value of an element inside of as many elements as the depth says. -/
def ofElement (limit : Option Nat) (depth : Nat) (element : Element) : Run Value := do
  checkLevel limit (depth + 1)
  Children.classify element.children
  let props ← element.assignedProps.attach.mapM fun pair =>
    assign pair.1.1 (ofNode limit (depth + 1) pair.1.2)
  let routes ← (Children.routed element.children).attach.mapM fun pair =>
    assign pair.1.1 (ofNode limit (depth + 1) pair.1.2)
  let contents ← assignContent element
    (ofSiblings limit (depth + 1) (Siblings.significant (Children.content element.children)))
  let tag := element.tagProps.map fun pair => (pair.1, .scalar pair.2.print)
  return .block element.prototype (tag ++ props ++ routes ++ contents)
termination_by 3 * element.size
decreasing_by
  · have smaller : pair.val.2.size < _ := size_lt_of_mem_assignedProps pair.2
    omega
  · have smaller : pair.val.2.size < _ := size_lt_of_mem_routed pair.2
    omega
  · have smaller := childrenSize_significant_content_lt element
    omega

/-- The single value of siblings that all mean something. -/
def ofSiblings (limit : Option Nat) (depth : Nat) : List Node → Run Value
  | [] => pure (.scalar emptyLiteral)
  | [node] => ofNode limit depth node
  | first :: second :: rest => do
    let slots ← ((first :: second :: rest).zipIdx 1).attach.mapM fun slot =>
      fillSlot slot.1.1 slot.1.2 (ofNode limit depth slot.1.1)
    return .block arrayPrototype slots
termination_by nodes => 3 * childrenSize nodes + 2
decreasing_by
  · simp only [childrenSize]; omega
  · have bound : slot.val.1.size ≤ _ := size_le_of_mem_zipIdx slot.2
    omega

end

/-! ### The run in equations

The definition carries the proof that each part is smaller than the whole. These are the same
equations without it. -/

theorem ofNode_leaf (limit : Option Nat) (depth : Nat) (leaf : Leaf) :
    ofNode limit depth (.leaf leaf) = pure (.scalar leaf.print) := by
  rw [ofNode]

theorem ofNode_element (limit : Option Nat) (depth : Nat) (element : Element) :
    ofNode limit depth (.element element) = ofElement limit depth element := by
  rw [ofNode]

theorem ofElement_eq (limit : Option Nat) (depth : Nat) (element : Element) :
    ofElement limit depth element = (do
      checkLevel limit (depth + 1)
      Children.classify element.children
      let props ← element.assignedProps.mapM fun pair =>
        assign pair.1 (ofNode limit (depth + 1) pair.2)
      let routes ← (Children.routed element.children).mapM fun pair =>
        assign pair.1 (ofNode limit (depth + 1) pair.2)
      let contents ← assignContent element
        (ofSiblings limit (depth + 1) (Siblings.significant (Children.content element.children)))
      let tag := element.tagProps.map fun pair => (pair.1, .scalar pair.2.print)
      return .block element.prototype (tag ++ props ++ routes ++ contents)) := by
  rw [ofElement]
  simp only [List.mapM_subtype, List.unattach_attach]

theorem ofSiblings_nil (limit : Option Nat) (depth : Nat) :
    ofSiblings limit depth [] = pure (.scalar emptyLiteral) := by
  rw [ofSiblings]

theorem ofSiblings_singleton (limit : Option Nat) (depth : Nat) (node : Node) :
    ofSiblings limit depth [node] = ofNode limit depth node := by
  rw [ofSiblings]

theorem ofSiblings_of_two_le (limit : Option Nat) (depth : Nat) {nodes : List Node}
    (several : 2 ≤ nodes.length) :
    ofSiblings limit depth nodes = (do
      let slots ← (nodes.zipIdx 1).mapM fun slot =>
        fillSlot slot.1 slot.2 (ofNode limit depth slot.1)
      return .block arrayPrototype slots) := by
  match nodes with
  | first :: second :: rest =>
    rw [ofSiblings]
    simp only [List.mapM_subtype, List.unattach_attach]

end Value

end MarkupBlocks
