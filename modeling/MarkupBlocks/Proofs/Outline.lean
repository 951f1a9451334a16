/-
The outline of a markup tree.

An outline is a value whose leaves are still those of the markup: the blocks with their
prototypes, and the names that are assigned in their order, without any spelling of the
leaves. It is what the value of a tree would be if every control property could be read, so
it is there for every tree and says nothing about faults, limits or events. An empty content
is a text with nothing in it.
-/

import MarkupBlocks.Proofs.Parts

namespace MarkupBlocks

/-- A value before its leaves are written. -/
inductive Outline where
  | leaf (content : Leaf)
  | block (prototype : String) (assignments : List (String × Outline))

mutual

/-- The value that an outline is of, each leaf written out. -/
def Outline.value : Outline → Value
  | .leaf content => .scalar content.print
  | .block prototype assignments => .block prototype (outlinedValues assignments)

/-- The values of outlines that are assigned to names. -/
def outlinedValues : List (String × Outline) → List (String × Value)
  | [] => []
  | (name, outline) :: rest => (name, outline.value) :: outlinedValues rest

end

theorem outlinedValues_eq_map (assignments : List (String × Outline)) :
    outlinedValues assignments = assignments.map fun pair => (pair.1, pair.2.value) := by
  induction assignments with
  | nil => rfl
  | cons head rest inductionHypothesis =>
    rw [outlinedValues, List.map_cons, inductionHypothesis]

theorem outlinedValues_append (left right : List (String × Outline)) :
    outlinedValues (left ++ right) = outlinedValues left ++ outlinedValues right := by
  simp only [outlinedValues_eq_map, List.map_append]

/-- What holds of every leaf, and of a block whenever it holds of what is assigned in it, holds of
every outline. -/
@[elab_as_elim]
theorem Outline.induction {motive : Outline → Prop} (leaf : ∀ content, motive (.leaf content))
    (block : ∀ prototype assignments, (∀ pair ∈ assignments, motive pair.2) →
      motive (.block prototype assignments)) (outline : Outline) : motive outline := by
  match outline with
  | .leaf content => exact leaf content
  | .block prototype assignments =>
    refine block prototype assignments fun pair member => ?_
    have smaller := List.sizeOf_lt_of_mem member
    exact Outline.induction leaf block pair.2
decreasing_by
  obtain ⟨name, outline⟩ := pair
  simp only [Outline.block.sizeOf_spec, Prod.mk.sizeOf_spec] at smaller ⊢
  omega

/-! ### Names, as far as they can be read -/

/-- The name of the property that receives the content, as far as it can be read. -/
def Element.contentLabel (element : Element) : String :=
  (readable (element.prop? Control.children.name)).getD contentProp

/-- The name of the content of an element, when there is any. -/
def Element.contentLabel? (element : Element) : Option String :=
  if (Children.content element.children).isEmpty then none else some element.contentLabel

/-- The key of a node, as far as it can be read. -/
def Node.key? (node : Node) : Option String :=
  readable (node.payload? .key)

/-- The name of the slot of a node, as far as it can be read. -/
def slotLabel (node : Node) (position : Nat) : String :=
  node.key?.getD (toString position)

/-! ### Outlines of nodes -/

/-- What a plain tag says about itself. -/
def Element.tagOutline (element : Element) : List (String × Outline) :=
  element.tagProps.map fun pair => (pair.1, .leaf pair.2)

/-- What the content of an element comes to, assigned to its name, when there is any. -/
def Element.assignedContent {Assigned : Type} (element : Element) (content : Assigned) :
    List (String × Assigned) :=
  element.contentLabel?.toList.map fun label => (label, content)

theorem Element.assignedContent_eq {Assigned : Type} (element : Element) (content : Assigned) :
    element.assignedContent content =
      if (Children.content element.children).isEmpty then []
      else [(element.contentLabel, content)] := by
  rw [assignedContent, contentLabel?]
  split <;> rfl

/-- What is assigned may be changed before or after it is assigned. -/
theorem Element.map_assignedContent {Assigned Changed : Type} (element : Element)
    (change : Assigned → Changed) (content : Assigned) :
    ((element.assignedContent content).map fun pair => (pair.1, change pair.2)) =
      element.assignedContent (change content) := by
  rw [assignedContent, assignedContent, List.map_map]
  rfl

mutual

/-- The outline of a node. -/
def Node.outline : Node → Outline
  | .leaf content => .leaf content
  | .element root => root.outline
termination_by node => 3 * node.size + 1
decreasing_by simp only [Node.size]; omega

/-- The outline of an element. -/
def Element.outline (element : Element) : Outline :=
  .block element.prototype
    (element.tagOutline ++
      (element.assignedProps.attach.map fun pair => (pair.1.1, pair.1.2.outline)) ++
      ((Children.routed element.children).attach.map fun pair => (pair.1.1, pair.1.2.outline)) ++
      element.assignedContent
        (Siblings.outline (Siblings.significant (Children.content element.children))))
termination_by 3 * element.size
decreasing_by
  · have smaller : pair.val.2.size < _ := size_lt_of_mem_assignedProps pair.2
    omega
  · have smaller : pair.val.2.size < _ := size_lt_of_mem_routed pair.2
    omega
  · have smaller := childrenSize_significant_content_lt element
    omega

/-- The single outline of siblings that all mean something. -/
def Siblings.outline : List Node → Outline
  | [] => .leaf (.text "")
  | [node] => node.outline
  | first :: second :: rest =>
    .block arrayPrototype
      (((first :: second :: rest).zipIdx 1).attach.map fun slot =>
        (slotLabel slot.1.1 slot.1.2, slot.1.1.outline))
termination_by nodes => 3 * childrenSize nodes + 2
decreasing_by
  · simp only [childrenSize]; omega
  · have bound : slot.val.1.size ≤ _ := size_le_of_mem_zipIdx slot.2
    omega

end

theorem Node.outline_leaf (content : Leaf) : (Node.leaf content).outline = .leaf content := by
  rw [Node.outline]

theorem Node.outline_element (root : Element) : (Node.element root).outline = root.outline := by
  rw [Node.outline]

theorem Element.outline_eq (element : Element) :
    element.outline =
      .block element.prototype
        (element.tagOutline ++ (element.assignedProps.map fun pair => (pair.1, pair.2.outline)) ++
          ((Children.routed element.children).map fun pair => (pair.1, pair.2.outline)) ++
          element.assignedContent
            (Siblings.outline (Siblings.significant (Children.content element.children)))) := by
  rw [Element.outline]
  simp only [List.map_subtype, List.unattach_attach]

theorem Siblings.outline_nil : Siblings.outline [] = .leaf (.text "") := by
  rw [Siblings.outline]

theorem Siblings.outline_singleton (node : Node) : Siblings.outline [node] = node.outline := by
  rw [Siblings.outline]

theorem Siblings.outline_of_two_le {nodes : List Node} (several : 2 ≤ nodes.length) :
    Siblings.outline nodes =
      .block arrayPrototype
        ((nodes.zipIdx 1).map fun slot => (slotLabel slot.1 slot.2, slot.1.outline)) := by
  match nodes with
  | first :: second :: rest =>
    rw [Siblings.outline]
    simp only [List.map_subtype, List.unattach_attach]

/-- The assignment tree of a document: the value it has when every control property can be
read. -/
def assignmentTree (nodes : List Node) : Value :=
  (Siblings.outline (Siblings.significant nodes)).value

end MarkupBlocks
