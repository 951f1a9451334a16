/-
Trees in which no element sets a property twice.

The type of trees allows lists of properties that repeat a name, and such a list is no map.
The functions that build elements never make one: an element without properties is well
formed, and setting a property or adding children keeps it so.
-/

import MarkupBlocks.Markup.Tree

namespace MarkupBlocks

/-- No element of the tree, at any depth, sets a property twice. -/
inductive Node.WellFormed : Node → Prop
  | leaf (leaf : Leaf) : WellFormed (.leaf leaf)
  | element {element : Element} (distinct : (Bindings.names element.props).Nodup)
      (props : ∀ prop ∈ element.props, WellFormed prop.2)
      (children : ∀ child ∈ element.children, WellFormed child) :
      WellFormed (.element element)

theorem Node.wellFormed_element_iff {element : Element} :
    (Node.element element).WellFormed ↔
      (Bindings.names element.props).Nodup ∧ (∀ prop ∈ element.props, prop.2.WellFormed) ∧
        ∀ child ∈ element.children, child.WellFormed := by
  refine ⟨fun wellFormed => ?_, fun ⟨distinct, props, children⟩ => .element distinct props children⟩
  cases wellFormed with
  | element distinct props children => exact ⟨distinct, props, children⟩

mutual

instance Node.decideWellFormed : (node : Node) → Decidable node.WellFormed
  | .leaf content => .isTrue (.leaf content)
  | .element ⟨_, props, children, _⟩ =>
    have := decidePropsWellFormed props
    have := decideChildrenWellFormed children
    decidable_of_iff _ Node.wellFormed_element_iff.symm

/-- Whether the values of properties are well formed, tested one by one. -/
def decidePropsWellFormed : (props : List (String × Node)) →
    Decidable (∀ prop ∈ props, prop.2.WellFormed)
  | [] => .isTrue nofun
  | (_, value) :: rest =>
    have := value.decideWellFormed
    have := decidePropsWellFormed rest
    decidable_of_iff _ List.forall_mem_cons.symm

/-- Whether nodes are well formed, tested one by one. -/
def decideChildrenWellFormed : (children : List Node) →
    Decidable (∀ child ∈ children, child.WellFormed)
  | [] => .isTrue nofun
  | child :: rest =>
    have := child.decideWellFormed
    have := decideChildrenWellFormed rest
    decidable_of_iff _ List.forall_mem_cons.symm

end

namespace Element

/-- No element of the tree, at any depth, sets a property twice. -/
def WellFormed (element : Element) : Prop := (Node.element element).WellFormed

/-- An element without properties and children is well formed. -/
theorem wellFormed_new (identifier : String) (selfClosing : Bool) :
    Element.WellFormed ⟨identifier, [], [], selfClosing⟩ :=
  .element List.nodup_nil nofun nofun

/-- Setting a property to a well formed value keeps an element well formed. -/
theorem wellFormed_setProp {element : Element} (wellFormed : element.WellFormed) (name : String)
    {value : Node} (valueWellFormed : value.WellFormed) :
    (element.setProp name value).WellFormed := by
  cases wellFormed with
  | element distinct props children =>
    refine .element (Bindings.nodup_names_insert distinct name value) ?_ children
    intro prop member
    rcases Bindings.mem_of_mem_insert member with same | older
    · rw [same]
      exact valueWellFormed
    · exact props prop older

/-- Setting properties to well formed values, one after the other, keeps an element well formed. -/
theorem wellFormed_setProps {element : Element} (wellFormed : element.WellFormed)
    {given : List (String × Node)} (values : ∀ prop ∈ given, prop.2.WellFormed) :
    (element.setProps given).WellFormed := by
  induction given generalizing element with
  | nil => exact wellFormed
  | cons prop rest inductionHypothesis =>
    obtain ⟨value, later⟩ := List.forall_mem_cons.mp values
    exact inductionHypothesis (wellFormed_setProp wellFormed prop.1 value) later

/-- Adding well formed children keeps an element well formed. -/
theorem wellFormed_addChildren {element : Element} (wellFormed : element.WellFormed)
    {children : List Node} (childrenWellFormed : ∀ child ∈ children, child.WellFormed) :
    (element.addChildren children).WellFormed := by
  cases wellFormed with
  | element distinct props older =>
    refine .element distinct props fun child member => ?_
    exact (List.mem_append.mp member).elim (older child) (childrenWellFormed child)

end Element

end MarkupBlocks
