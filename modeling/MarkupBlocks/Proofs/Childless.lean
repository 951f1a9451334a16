/-
Children are another way to write properties.

An element can be given all that it assigns as properties: its own, then each path with the child
that it stands for, then the content under its name. The content is one node then. It is an empty
literal when nothing is left of it, what is left when that is one node, and otherwise an element of
the array prototype with one property for each slot, because an array is written as such an element
is. Text that is taken over in this way has lost its layout already, and as the value of a property
it loses nothing more. As long as no name is set twice and none of the names is reserved, the
element without children is written as the element itself is.
-/

import MarkupBlocks.Proofs.Groups
import MarkupBlocks.Proofs.PlainTags
import MarkupBlocks.Proofs.Slots

namespace MarkupBlocks

/-! ### Properties in place of children -/

/-- An element without children whose properties are set one after another. -/
def Element.ofProps (identifier : String) (props : List (String × Node)) (selfClosing : Bool) :
    Element :=
  ⟨identifier, Bindings.ofList props, [], selfClosing⟩

/-- The slots of several siblings, as properties. -/
def slotProps (siblings : List Node) : List (String × Node) :=
  (siblings.zipIdx 1).map fun slot => (slotLabel slot.1 slot.2, slot.1)

/-- The single node that siblings amount to. -/
def Siblings.asNode : List Node → Node
  | [] => .leaf (.literal "")
  | [node] => node
  | first :: second :: rest =>
    .element (.ofProps "Neos.Fusion:Array" (slotProps (first :: second :: rest)) false)

/-- The content of an element, as a property, when it has any. -/
def Element.contentProps (element : Element) : List (String × Node) :=
  element.assignedContent
    (Siblings.asNode (Siblings.significant (Children.content element.children)))

/-- What an element assigns, as properties: its own that are not reserved, the last child with each
path in the place of the first, and the content. -/
def Element.spelledProps (element : Element) : List (String × Node) :=
  (element.props.filter fun prop => !Control.isReserved prop.1) ++
    Children.collapsed element.children ++ element.contentProps

/-- The element without children that has as properties all that an element assigns. -/
def Element.childless (element : Element) : Element :=
  .ofProps element.identifier element.spelledProps element.selfClosing

/-- Properties that may be set one after another and are all assigned: no name is set twice, and
none is reserved. -/
structure Settable (props : List (String × Node)) : Prop where
  distinct : (Bindings.names props).Nodup
  free : ∀ name ∈ Bindings.names props, Control.isReserved name = false

/-! ### Pieces of an object -/

/-- The piece that a node is under a name. -/
def Node.piece (node : Node) (name : String) : Piece :=
  ⟨name, node.journal 0, node.outline⟩

theorem Element.assignedProps_of_qualified {element : Element}
    (qualified : element.isQualified = true) :
    element.assignedProps = element.props.filter fun prop => !Control.isReserved prop.1 := by
  have named (name : String) : element.assignedName name = name := by
    rw [assignedName, qualified]
    rfl
  rw [assignedProps]
  simp only [named]
  exact List.map_id _

/-- The pieces of an object are its properties, the routed children and the content. -/
theorem Element.sources_of_qualified {element : Element} (qualified : element.isQualified = true) :
    element.sources =
      ((element.props.filter fun prop => !Control.isReserved prop.1) ++
        Children.collapsed element.children).map (fun pair => pair.2.piece pair.1) ++
      element.contentSources := by
  rw [sources, tagOutline_of_qualified qualified, assignedProps_of_qualified qualified,
    Children.routed_eq, List.map_append]
  rfl

section Settable

variable {identifier : String} (qualified : identifier.toList.contains Element.separator = true)
  {props : List (String × Node)} (settable : Settable props) (selfClosing : Bool)

include qualified settable

/-- The pieces of an object without children are the properties that it was given. -/
theorem Element.sources_ofProps :
    (Element.ofProps identifier props selfClosing).sources =
      props.map fun pair => pair.2.piece pair.1 := by
  have all : (props.filter fun prop => !Control.isReserved prop.1) = props := by
    refine List.filter_eq_self.mpr fun prop member => ?_
    rw [settable.free prop.1 (List.mem_map_of_mem member)]
    rfl
  have object : (Element.ofProps identifier props selfClosing).isQualified = true := qualified
  rw [Element.sources_of_qualified object]
  show ((Bindings.ofList props).filter _ ++ []).map _ ++ [] = _
  rw [Bindings.ofList_of_nodup settable.distinct, all, List.append_nil, List.append_nil]

/-- An object without children is a block of its properties. -/
theorem Element.outline_ofProps :
    (Element.ofProps identifier props selfClosing).outline =
      .block identifier (props.map fun pair => (pair.1, pair.2.outline)) := by
  have object : (Element.ofProps identifier props selfClosing).isQualified = true := qualified
  rw [Element.outline_eq_sources, Element.sources_ofProps qualified settable, List.map_map,
    Element.prototype, if_pos object]
  rfl

/-- An object without children renders when its properties do, unless there is a limit. -/
theorem Element.passes_ofProps
    (each : ∀ pair ∈ props, ∀ step ∈ pair.2.journal 0, step.Passes none) :
    ∀ step ∈ (Element.ofProps identifier props selfClosing).journal 0, step.Passes none := by
  have readable : (Element.ofProps identifier props selfClosing).ControlsReadable :=
    ⟨nofun, fun ⟨_, member, _⟩ => absurd member List.not_mem_nil⟩
  refine (@Element.passes_journal_iff _ none).mpr ⟨readable, ?_⟩
  rw [Element.sources_ofProps qualified settable]
  exact List.forall_mem_map.mpr each

end Settable

/-! ### The content as one node -/

section Content

variable {siblings : List Node} (settable : 2 ≤ siblings.length → Settable (slotProps siblings))

include settable

/-- The single node that siblings amount to is written as they are. -/
theorem Siblings.value_asNode :
    (Siblings.asNode siblings).outline.value = (Siblings.outline siblings).value := by
  cases siblings with
  | nil =>
    rw [asNode, Siblings.outline_nil, Node.outline_leaf]
    rfl
  | cons first others =>
    cases others with
    | nil => rw [asNode, Siblings.outline_singleton]
    | cons second rest =>
      have several : 2 ≤ (first :: second :: rest).length := Nat.le_add_left 2 rest.length
      rw [asNode, Node.outline_element, Element.outline_ofProps (by decide) (settable several),
        Siblings.outline_of_two_le several, slotProps, List.map_map]
      rfl

/-- The single node that siblings amount to renders when they do, unless there is a limit. -/
theorem Siblings.passes_asNode (passes : ∀ step ∈ Siblings.journal 0 siblings, step.Passes none) :
    ∀ step ∈ (Siblings.asNode siblings).journal 0, step.Passes none := by
  cases siblings with
  | nil =>
    rw [asNode, Node.journal_leaf]
    exact List.forall_mem_nil _
  | cons first others =>
    cases others with
    | nil =>
      rw [Siblings.journal_singleton] at passes
      exact passes
    | cons second rest =>
      have several : 2 ≤ (first :: second :: rest).length := Nat.le_add_left 2 rest.length
      rw [Siblings.journal_of_two_le 0 several, List.forall_mem_flatMap] at passes
      rw [asNode, Node.journal_element]
      refine Element.passes_ofProps (by decide) (settable several) _ (List.forall_mem_map.mpr ?_)
      exact fun slot member => (passes_slotSteps_iff.mp (passes slot member)).2

end Content

/-! ### The element without children -/

namespace Element

variable {element : Element}
  (slots : 2 ≤ (Siblings.significant (Children.content element.children)).length →
    Settable (slotProps (Siblings.significant (Children.content element.children))))

include slots

theorem values_contentProps :
    (element.contentProps.map fun prop => (prop.1, prop.2.outline.value)) =
      element.contentSources.map fun piece => (piece.name, piece.outline.value) := by
  rw [contentProps, element.map_assignedContent fun node : Node => node.outline.value,
    Siblings.value_asNode slots, assignedContent, contentSources, List.map_map]
  rfl

theorem passes_contentProps
    (passes : ∀ piece ∈ element.contentSources, ∀ step ∈ piece.steps, step.Passes none) :
    ∀ prop ∈ element.contentProps, ∀ step ∈ prop.2.journal 0, step.Passes none := by
  rw [contentSources, List.forall_mem_map] at passes
  rw [contentProps, assignedContent, List.forall_mem_map]
  exact fun label member => Siblings.passes_asNode slots (passes label member)

variable (qualified : element.isQualified = true) (settable : Settable element.spelledProps)

include qualified settable

/-- The element without children is written as the element is. -/
theorem value_childless : element.childless.outline.value = element.outline.value := by
  have values : (element.spelledProps.map fun prop => (prop.1, prop.2.outline.value)) =
      element.sources.map fun piece => (piece.name, piece.outline.value) := by
    rw [sources_of_qualified qualified, List.map_append, List.map_map, spelledProps,
      List.map_append, values_contentProps slots]
    rfl
  rw [childless, outline_ofProps qualified settable, outline_eq_sources, prototype,
    if_pos qualified, Outline.value, Outline.value, outlinedValues_eq_map, outlinedValues_eq_map,
    List.map_map, List.map_map]
  exact congrArg _ values

/-- The element without children renders when the element does, unless there is a limit. -/
theorem passes_childless (passes : ∀ step ∈ element.journal 0, step.Passes none) :
    ∀ step ∈ element.childless.journal 0, step.Passes none := by
  have pieces := ((@passes_journal_iff element none).mp passes).2
  rw [sources_of_qualified qualified, List.forall_mem_append, List.forall_mem_map] at pieces
  refine passes_ofProps qualified settable _ ?_
  exact List.forall_mem_append.mpr ⟨pieces.1, passes_contentProps slots pieces.2⟩

end Element

/-- Children are another way to write properties. Where an object renders without a limit, and the
names that it assigns, and the names of its slots, may be set one after another, the object without
children that is given all that it assigns as properties renders to the same text, on every line. -/
theorem renderElement_childless (base : String) {element : Element}
    (qualified : element.isQualified = true) {start text : String}
    (renders : (Settings.renderElement ⟨base, none⟩ element start).result = .ok text)
    (settable : Settable element.spelledProps)
    (slots : 2 ≤ (Siblings.significant (Children.content element.children)).length →
      Settable (slotProps (Siblings.significant (Children.content element.children))))
    (indentation : String) :
    ∃ written,
      (Settings.renderElement ⟨base, none⟩ element indentation).result = .ok written ∧
      (Settings.renderElement ⟨base, none⟩ element.childless indentation).result = .ok written := by
  rw [renderElement_eq_follow, follow_eq_ok_iff] at renders
  have passes := renders.1
  refine ⟨(Node.element element).outline.value.print indentation, ?_, ?_⟩
  · rw [renderElement_eq_follow, follow_eq_ok_iff]
    exact ⟨passes, rfl⟩
  · rw [renderElement_eq_follow, follow_eq_ok_iff, Node.outline_element, Node.outline_element,
      Element.value_childless slots qualified settable]
    exact ⟨Element.passes_childless slots qualified settable passes, rfl⟩

/-- An element with children of both groups, two of them with one path, and with properties of its
own, one of which says where the content goes. The content is an array, in which a text has lost its
layout. -/
theorem renderElement_childless_array :
    let part (path : String) (children : List Node) :=
      Node.element ⟨"V:P", [("@path", .leaf (.literal path))], children, false⟩
    let keyed := Node.element ⟨"V:K", [("@key", .leaf (.literal "k"))], [], true⟩
    let last := part "p" [.leaf (.text "z")]
    let element : Element :=
      ⟨"V:E", [("title", .leaf (.text " t ")), ("@children", .leaf (.literal "body")),
        ("@if", .leaf (.expression "c"))],
        [.leaf (.text "\n  "), part "p" [.leaf (.expression "y")], .leaf (.text "\n x y\n"),
          part "q" [], keyed, last], false⟩
    let array : Element :=
      ⟨"Neos.Fusion:Array", [("1", .leaf (.text "x y")), ("k", keyed)], [], false⟩
    let childless : Element :=
      ⟨"V:E", [("title", .leaf (.text " t ")), ("@if", .leaf (.expression "c")), ("p", last),
        ("q", part "q" []), ("body", .element array)], [], false⟩
    let render (element : Element) := (Settings.renderElement ⟨"", none⟩ element "  ").result
    let written := "V:E \x7b\n      title = ' t '\n      @if = $\x7bc\x7d\n" ++
      "      p = V:P \x7b\n          content = 'z'\n      \x7d\n      q = V:P \x7b\n      \x7d\n" ++
      "      body = Neos.Fusion:Array \x7b\n          1 = 'x y'\n          k = V:K \x7b\n" ++
      "          \x7d\n      \x7d\n  \x7d"
    element.childless = childless ∧ Settable element.spelledProps ∧
      Settable (slotProps (Siblings.significant (Children.content element.children))) ∧
      render element = .ok written ∧ render childless = .ok written := by
  intro part keyed last element array childless render written
  have same : element.childless = childless := by rfl
  have settable : Settable element.spelledProps :=
    ⟨by decide +kernel, by decide +kernel⟩
  have slots : Settable
      (slotProps (Siblings.significant (Children.content element.children))) :=
    ⟨by decide +kernel, by decide +kernel⟩
  have renders : render element = .ok written := by decide +kernel
  obtain ⟨text, whole, spelled⟩ :=
    renderElement_childless "" (by decide) renders settable (fun _ => slots) "  "
  rw [same] at spelled
  exact ⟨same, settable, slots, renders, spelled.trans (whole.symm.trans renders)⟩

end MarkupBlocks
