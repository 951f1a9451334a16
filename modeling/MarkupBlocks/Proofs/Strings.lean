/-
The strings of a markup tree, by the part that they play.

What is asked of a string depends on where it stands: the name of a property is written as it
is, a quoted value goes through an escape, a text among siblings loses its layout first. A
rule says what is asked of a string in each role. A tree that obeys a rule has an outline that
obeys the rule carried over to it, where the roles are only three: prototypes, names, leaves.
-/

import MarkupBlocks.Proofs.Outline

namespace MarkupBlocks

/-- The part that a string plays in a markup tree. -/
inductive Role where
  /-- The identifier of an element that names a prototype. -/
  | prototype
  /-- The identifier of a plain tag. -/
  | tag
  /-- The name of a property. -/
  | name
  /-- The quoted value of a control property. -/
  | payload
  /-- The code of an expression. -/
  | code
  /-- Any other quoted value. -/
  | literal
  /-- A text that is the value of a property. -/
  | text
  /-- A text among siblings. -/
  | content

/-- Where a node stands: it is the value of a property, or one of a list of siblings. -/
inductive Place where
  | prop (name : String)
  | sibling

/-- The role of a quoted value. -/
def Place.literalRole : Place → Role
  | .prop name => if Control.isReserved name then .payload else .literal
  | .sibling => .literal

/-- The role of a text. -/
def Place.textRole : Place → Role
  | .prop _ => .text
  | .sibling => .content

/-- The role of an identifier. -/
def Element.identifierRole (element : Element) : Role :=
  if element.isQualified then .prototype else .tag

section Rules

variable (rule : Role → String → Prop)

/-- The string of a leaf obeys a rule. -/
def Leaf.Obeys (place : Place) : Leaf → Prop
  | .expression code => rule .code code
  | .literal value => rule place.literalRole value
  | .text value => rule place.textRole value
  | .boolean _ => True

/-- All strings of a tree obey a rule, at every depth. -/
inductive Node.Obeys : Place → Node → Prop
  | leaf {place : Place} {content : Leaf} (obeys : content.Obeys rule place) :
      Obeys place (.leaf content)
  | element {place : Place} {element : Element}
      (identifier : rule element.identifierRole element.identifier)
      (names : ∀ prop ∈ element.props, rule .name prop.1)
      (props : ∀ prop ∈ element.props, Obeys (.prop prop.1) prop.2)
      (children : ∀ child ∈ element.children, Obeys .sibling child) :
      Obeys place (.element element)

/-- All strings of a document obey a rule. -/
def DocumentObeys (nodes : List Node) : Prop :=
  ∀ node ∈ nodes, node.Obeys rule .sibling

end Rules

theorem Node.obeys_leaf_iff {rule : Role → String → Prop} {place : Place} {content : Leaf} :
    (Node.leaf content).Obeys rule place ↔ content.Obeys rule place := by
  refine ⟨fun obeys => ?_, .leaf⟩
  cases obeys with
  | leaf obeys => exact obeys

theorem Node.obeys_element_iff {rule : Role → String → Prop} {place : Place}
    {element : Element} :
    (Node.element element).Obeys rule place ↔
      rule element.identifierRole element.identifier ∧ (∀ prop ∈ element.props, rule .name prop.1) ∧
        (∀ prop ∈ element.props, prop.2.Obeys rule (.prop prop.1)) ∧
        ∀ child ∈ element.children, child.Obeys rule .sibling := by
  refine ⟨fun obeys => ?_, fun ⟨identifier, names, props, children⟩ =>
    .element identifier names props children⟩
  cases obeys with
  | element identifier names props children => exact ⟨identifier, names, props, children⟩

/-! ### A rule that can be tested can be tested on a tree -/

section Decide

variable {rule : Role → String → Prop} [decideRule : ∀ role string, Decidable (rule role string)]

instance Leaf.decideObeys (place : Place) : (content : Leaf) → Decidable (content.Obeys rule place)
  | .expression code => decideRule .code code
  | .literal value => decideRule place.literalRole value
  | .text value => decideRule place.textRole value
  | .boolean _ => .isTrue trivial

mutual

instance Node.decideObeys (place : Place) : (node : Node) → Decidable (node.Obeys rule place)
  | .leaf content => decidable_of_iff (content.Obeys rule place) Node.obeys_leaf_iff.symm
  | .element ⟨_, props, children, _⟩ =>
    have := decidePropsObey props
    have := decideChildrenObey children
    decidable_of_iff _ Node.obeys_element_iff.symm

/-- The properties of an element obey a rule, tested one by one. -/
def decidePropsObey : (props : List (String × Node)) →
    Decidable (∀ prop ∈ props, prop.2.Obeys rule (.prop prop.1))
  | [] => .isTrue nofun
  | (name, value) :: rest =>
    have := value.decideObeys (.prop name)
    have := decidePropsObey rest
    decidable_of_iff _ List.forall_mem_cons.symm

/-- A list of siblings obeys a rule, tested one by one. -/
def decideChildrenObey : (children : List Node) →
    Decidable (∀ child ∈ children, child.Obeys rule .sibling)
  | [] => .isTrue nofun
  | child :: rest =>
    have := child.decideObeys .sibling
    have := decideChildrenObey rest
    decidable_of_iff _ List.forall_mem_cons.symm

end

instance (nodes : List Node) : Decidable (DocumentObeys rule nodes) := decideChildrenObey nodes

end Decide

/-! ### Outlines that obey -/

/-- What is asked of the strings of an outline. -/
structure OutlineRule where
  prototype : String → Prop
  name : String → Prop
  leaf : Leaf → Prop

/-- An outline obeys a rule at every depth. -/
inductive Outline.Obeys (rule : OutlineRule) : Outline → Prop
  | leaf {content : Leaf} (obeys : rule.leaf content) : Obeys rule (.leaf content)
  | block {head : String} {assignments : List (String × Outline)}
      (prototype : rule.prototype head) (names : ∀ pair ∈ assignments, rule.name pair.1)
      (values : ∀ pair ∈ assignments, Obeys rule pair.2) : Obeys rule (.block head assignments)

/-- A rule for trees carries over to a rule for outlines: whatever an outline takes from a
tree obeys the one when the tree obeys the other, and so does what it adds. -/
structure Carries (rule : Role → String → Prop) (outlineRule : OutlineRule) : Prop where
  prototype : ∀ {string : String}, rule .prototype string → outlineRule.prototype string
  tagPrototype : outlineRule.prototype tagPrototype
  arrayPrototype : outlineRule.prototype arrayPrototype
  name : ∀ {string : String}, rule .name string → outlineRule.name string
  attributeName : ∀ {string : String}, rule .name string →
    outlineRule.name (attributeScope ++ string)
  payload : ∀ {string : String}, rule .payload string → outlineRule.name string
  position : ∀ number : Nat, outlineRule.name (toString number)
  tagNameProp : outlineRule.name tagNameProp
  selfClosingProp : outlineRule.name selfClosingProp
  contentProp : outlineRule.name contentProp
  code : ∀ {string : String}, rule .code string → outlineRule.leaf (.expression string)
  literal : ∀ {string : String}, rule .literal string → outlineRule.leaf (.literal string)
  tag : ∀ {string : String}, rule .tag string → outlineRule.leaf (.literal string)
  text : ∀ {string : String}, rule .text string → outlineRule.leaf (.text string)
  content : ∀ {string : String}, rule .content string →
    outlineRule.leaf (.text (Text.stripLayout string))
  empty : outlineRule.leaf (.text "")
  boolean : ∀ value, outlineRule.leaf (.boolean value)

/-! ### What can be read of a tree that obeys -/

section Carry

variable {rule : Role → String → Prop}

theorem Node.Obeys.name {place : Place} {element : Element}
    (obeys : (Node.element element).Obeys rule place) {prop : String × Node}
    (present : prop ∈ element.props) : rule .name prop.1 :=
  (Node.obeys_element_iff.mp obeys).2.1 prop present

theorem Node.Obeys.prop {place : Place} {element : Element}
    (obeys : (Node.element element).Obeys rule place) {prop : String × Node}
    (present : prop ∈ element.props) : prop.2.Obeys rule (.prop prop.1) :=
  (Node.obeys_element_iff.mp obeys).2.2.1 prop present

theorem Node.Obeys.child {place : Place} {element : Element}
    (obeys : (Node.element element).Obeys rule place) {child : Node}
    (present : child ∈ element.children) : child.Obeys rule .sibling :=
  (Node.obeys_element_iff.mp obeys).2.2.2 child present

/-- What a control property says plays the role of a payload. -/
theorem Node.Obeys.readable_prop {place : Place} {element : Element}
    (obeys : (Node.element element).Obeys rule place) {control : Control} {text : String}
    (read : readable (element.prop? control.name) = some text) : rule .payload text := by
  obtain ⟨node, found, literal⟩ := Option.bind_eq_some_iff.mp read
  have payload : node.Obeys rule (.prop control.name) :=
    obeys.prop (Bindings.mem_of_get? found)
  unfold Node.literal? at literal
  split at literal
  · cases payload with
    | leaf obeys =>
      rw [← Option.some.inj literal]
      rwa [Leaf.Obeys, Place.literalRole, if_pos control.isReserved_name] at obeys
  · exact absurd literal nofun

theorem Node.Obeys.readable_payload {place : Place} {node : Node} (obeys : node.Obeys rule place)
    {control : Control} {text : String} (read : readable (node.payload? control) = some text) :
    rule .payload text := by
  cases node with
  | leaf content => exact absurd read nofun
  | element element => exact obeys.readable_prop read

/-! ### The outline of a tree that obeys -/

/-- A node that stands at a place is written as it is: no payload of a control property, and no
text among siblings, which loses its layout before it is written. -/
def Place.Shows : Place → Node → Prop
  | .prop name, _ => Control.isReserved name = false
  | .sibling, node => ∀ text, node ≠ .leaf (.text text)

variable {outlineRule : OutlineRule}

theorem outlines_obey {pairs : List (String × Node)}
    (each : ∀ pair ∈ pairs, outlineRule.name pair.1 ∧ pair.2.outline.Obeys outlineRule) :
    ∀ pair ∈ pairs.map fun pair => (pair.1, pair.2.outline),
      outlineRule.name pair.1 ∧ pair.2.Obeys outlineRule := by
  intro pair member
  obtain ⟨source, present, rfl⟩ := List.mem_map.mp member
  exact each source present

variable (carries : Carries rule outlineRule)

include carries

theorem Outline.obeys_leaf {place : Place} {content : Leaf} (obeys : content.Obeys rule place)
    (shows : place.Shows (.leaf content)) : (Outline.leaf content).Obeys outlineRule := by
  refine .leaf ?_
  cases content with
  | expression code => exact carries.code obeys
  | boolean value => exact carries.boolean value
  | literal value =>
    have role : place.literalRole = .literal := by
      cases place with
      | prop name => exact if_neg (Bool.eq_false_iff.mp shows)
      | sibling => rfl
    rw [Leaf.Obeys, role] at obeys
    exact carries.literal obeys
  | text value =>
    cases place with
    | prop name => exact carries.text obeys
    | sibling => exact absurd rfl (shows value)

theorem Element.tagOutline_obeys {element : Element}
    (identifier : rule element.identifierRole element.identifier) :
    ∀ pair ∈ element.tagOutline,
      outlineRule.name pair.1 ∧ pair.2.Obeys outlineRule := by
  unfold Element.tagOutline Element.tagProps
  unfold Element.identifierRole at identifier
  split
  · exact nofun
  · next plain =>
    rw [if_neg plain] at identifier
    have tag : outlineRule.name tagNameProp ∧
        (Outline.leaf (.literal element.identifier)).Obeys outlineRule :=
      ⟨carries.tagNameProp, .leaf (carries.tag identifier)⟩
    have closing : outlineRule.name selfClosingProp ∧
        (Outline.leaf (.boolean true)).Obeys outlineRule :=
      ⟨carries.selfClosingProp, .leaf (carries.boolean true)⟩
    split
    · intro pair member
      rcases List.mem_cons.mp member with rfl | last
      · exact tag
      · rw [List.mem_singleton.mp last]
        exact closing
    · intro pair member
      rw [List.mem_singleton.mp member]
      exact tag

theorem Siblings.outline_obeys {nodes : List Node}
    (each : ∀ node ∈ nodes, node.outline.Obeys outlineRule ∧
      ∀ key, node.key? = some key → rule .payload key) :
    (Siblings.outline nodes).Obeys outlineRule := by
  match nodes with
  | [] =>
    rw [Siblings.outline_nil]
    exact .leaf carries.empty
  | [node] =>
    rw [Siblings.outline_singleton]
    exact (each node List.mem_cons_self).1
  | first :: second :: rest =>
    have several : 2 ≤ (first :: second :: rest).length := Nat.le_add_left 2 rest.length
    rw [Siblings.outline_of_two_le several]
    refine .block carries.arrayPrototype (fun pair member => ?_) (fun pair member => ?_)
    · obtain ⟨⟨node, position⟩, present, rfl⟩ := List.mem_map.mp member
      show outlineRule.name (slotLabel node position)
      unfold slotLabel
      cases read : node.key? with
      | none => exact carries.position position
      | some key =>
        exact carries.payload ((each node (List.fst_mem_of_mem_zipIdx present)).2 key read)
    · obtain ⟨slot, present, rfl⟩ := List.mem_map.mp member
      exact (each slot.1 (List.fst_mem_of_mem_zipIdx present)).1

/-- Siblings that obey have an outline that obeys, as soon as each that is not a text has one. A
text loses its layout and obeys on its own account. -/
theorem Siblings.outline_significant_obeys {nodes : List Node}
    (obeys : ∀ node ∈ nodes, node.Obeys rule .sibling)
    (each : ∀ node ∈ Siblings.significant nodes, node.Obeys rule .sibling →
      Place.sibling.Shows node → node.outline.Obeys outlineRule) :
    (Siblings.outline (Siblings.significant nodes)).Obeys outlineRule := by
  refine Siblings.outline_obeys carries fun kept member => ?_
  obtain ⟨source, present, survives⟩ := List.mem_filterMap.mp member
  rcases Node.significant?_eq_some survives with ⟨text, rfl, rfl⟩ | ⟨rfl, noText⟩
  · rw [Node.outline_leaf]
    cases obeys _ present with
    | leaf content => exact ⟨.leaf (carries.content content), nofun⟩
  · have whole := obeys kept present
    exact ⟨each kept member whole noText, fun key read => whole.readable_payload read⟩

theorem Element.prototype_obeys {element : Element}
    (identifier : rule element.identifierRole element.identifier) :
    outlineRule.prototype element.prototype := by
  unfold Element.prototype
  unfold Element.identifierRole at identifier
  split
  · next qualified =>
    rw [if_pos qualified] at identifier
    exact carries.prototype identifier
  · exact carries.tagPrototype

theorem Element.assignedName_obeys {element : Element} {name : String}
    (obeys : rule .name name) : outlineRule.name (element.assignedName name) := by
  unfold Element.assignedName
  split
  · exact carries.name obeys
  · exact carries.attributeName obeys

theorem Element.contentLabel_obeys {element : Element} {place : Place}
    (obeys : (Node.element element).Obeys rule place) :
    outlineRule.name element.contentLabel := by
  unfold Element.contentLabel
  cases read : readable (element.prop? Control.children.name) with
  | none => exact carries.contentProp
  | some label => exact carries.payload (obeys.readable_prop read)

section Parts

variable {element : Element} {place : Place} (obeys : (Node.element element).Obeys rule place)
  (parts : ∀ part ∈ element.parts, ∀ {place : Place}, part.Obeys rule place → place.Shows part →
    part.outline.Obeys outlineRule)

include obeys parts

theorem Element.assigned_obey :
    ∀ pair ∈ element.assignedProps,
      outlineRule.name pair.1 ∧ pair.2.outline.Obeys outlineRule := by
  intro pair member
  obtain ⟨name, present, free, renamed⟩ := Element.mem_assignedProps_iff.mp member
  have value : pair.2.Obeys rule (.prop name) := obeys.prop present
  rw [renamed]
  exact ⟨Element.assignedName_obeys carries (obeys.name present),
    parts pair.2 (Element.mem_parts_of_assigned member) value free⟩

theorem Element.routed_obey :
    ∀ pair ∈ Children.routed element.children,
      outlineRule.name pair.1 ∧ pair.2.outline.Obeys outlineRule := by
  rintro ⟨path, child⟩ member
  obtain ⟨before, after, split, carried, -⟩ := Children.mem_routed_iff.mp member
  have present : child ∈ element.children :=
    split ▸ List.mem_append_right _ List.mem_cons_self
  -- Only elements carry a path.
  have noText : ∀ text, child ≠ .leaf (.text text) := by
    rintro text rfl
    exact absurd carried nofun
  exact ⟨carries.payload ((obeys.child present).readable_payload carried),
    parts child (Element.mem_parts_of_routed member) (obeys.child present) noText⟩

theorem Element.assignedContent_obeys :
    ∀ pair ∈ element.assignedContent
        (Siblings.outline (Siblings.significant (Children.content element.children))),
      outlineRule.name pair.1 ∧ pair.2.Obeys outlineRule := by
  rw [Element.assignedContent_eq]
  split
  · exact nofun
  · intro pair member
    rw [List.mem_singleton.mp member]
    refine ⟨Element.contentLabel_obeys carries obeys, ?_⟩
    refine Siblings.outline_significant_obeys carries (fun child member => ?_) fun kept member =>
      parts kept (element.mem_parts_of_content member)
    exact obeys.child (Children.mem_content_iff.mp member).1

end Parts

theorem Node.outline_obeys {place : Place} {node : Node} (obeys : node.Obeys rule place)
    (shows : place.Shows node) : node.outline.Obeys outlineRule := by
  induction node using Node.induction generalizing place with
  | leaf content =>
    rw [Node.outline_leaf]
    exact Outline.obeys_leaf carries (Node.obeys_leaf_iff.mp obeys) shows
  | element element inductionHypothesis =>
    have identifier := (Node.obeys_element_iff.mp obeys).1
    have assigned := Element.assigned_obey carries obeys inductionHypothesis
    have routed := Element.routed_obey carries obeys inductionHypothesis
    have all := List.forall_mem_append.mpr ⟨List.forall_mem_append.mpr
      ⟨List.forall_mem_append.mpr ⟨Element.tagOutline_obeys carries identifier,
        outlines_obey assigned⟩, outlines_obey routed⟩,
      Element.assignedContent_obeys carries obeys inductionHypothesis⟩
    rw [Node.outline_element, Element.outline_eq]
    exact .block (Element.prototype_obeys carries identifier)
      (fun pair member => (all pair member).1) fun pair member => (all pair member).2

/-- The outline of a document that obeys obeys. -/
theorem documentOutline_obeys {nodes : List Node} (obeys : DocumentObeys rule nodes) :
    (Siblings.outline (Siblings.significant nodes)).Obeys outlineRule :=
  Siblings.outline_significant_obeys carries obeys fun _ _ whole shows =>
    Node.outline_obeys carries whole shows

end Carry

end MarkupBlocks
