/-
What an element is made from.

The value of an element is put together from the values of other nodes: those of its
properties that are not control properties, its routed children, and the part of its content
that means something. Everything else in its tree is looked at by nobody. The parts are
smaller than the element, so a fact that passes from the parts of an element to the element
holds of every node. A node is reachable when it is a surviving sibling of the document or a
part of a reachable element. The visited nodes are the reachable ones in a row, each as often as
it is looked at.
-/

import MarkupBlocks.Proofs.Routes
import MarkupBlocks.Value.OfMarkup

namespace MarkupBlocks

/-- The nodes whose values an element is put together from, in the order of the work. -/
def Element.parts (element : Element) : List Node :=
  element.assignedProps.map Prod.snd ++ (Children.routed element.children).map Prod.snd ++
    Siblings.significant (Children.content element.children)

namespace Element

variable {element : Element}

theorem mem_parts_of_assigned {prop : String × Node} (member : prop ∈ element.assignedProps) :
    prop.2 ∈ element.parts :=
  List.mem_append_left _ (List.mem_append_left _ (List.mem_map_of_mem member))

theorem mem_parts_of_routed {route : String × Node}
    (member : route ∈ Children.routed element.children) : route.2 ∈ element.parts :=
  List.mem_append_left _ (List.mem_append_right _ (List.mem_map_of_mem member))

theorem mem_parts_of_content (element : Element) {node : Node}
    (member : node ∈ Siblings.significant (Children.content element.children)) :
    node ∈ element.parts :=
  List.mem_append_right _ member

theorem size_lt_of_mem_parts {part : Node} (member : part ∈ element.parts) :
    part.size < element.size := by
  rcases List.mem_append.mp member with member | content
  · rcases List.mem_append.mp member with prop | route
    · obtain ⟨⟨name, value⟩, present, rfl⟩ := List.mem_map.mp prop
      exact size_lt_of_mem_assignedProps present
    · obtain ⟨⟨path, child⟩, present, rfl⟩ := List.mem_map.mp route
      exact size_lt_of_mem_routed present
  · exact Nat.lt_of_le_of_lt (size_le_childrenSize content)
      (childrenSize_significant_content_lt element)

end Element

/-- What holds of every leaf, and of an element whenever it holds of its parts, holds of every
node. -/
@[elab_as_elim]
theorem Node.induction {motive : Node → Prop} (leaf : ∀ leaf, motive (.leaf leaf))
    (element : ∀ element : Element, (∀ part ∈ element.parts, motive part) →
      motive (.element element))
    (node : Node) : motive node := by
  match node with
  | .leaf content => exact leaf content
  | .element root =>
    exact element root fun part member =>
      have : part.size < root.size := Element.size_lt_of_mem_parts member
      Node.induction leaf element part
termination_by node.size
decreasing_by simpa only [Node.size] using this

/-- One of several siblings is kept as it is, unless it is a text, which loses its layout. -/
theorem Node.significant?_eq_some {node kept : Node} (survives : node.significant? = some kept) :
    (∃ text, node = .leaf (.text text) ∧ kept = .leaf (.text (Text.stripLayout text))) ∨
      (kept = node ∧ ∀ text, node ≠ .leaf (.text text)) := by
  unfold Node.significant? at survives
  split at survives
  · next text =>
    simp only at survives
    split at survives
    · exact absurd survives nofun
    · exact Or.inl ⟨text, rfl, (Option.some.inj survives).symm⟩
  · next other => exact Or.inr ⟨(Option.some.inj survives).symm, fun text same => other text same⟩

/-! ### The parts, one by one -/

/-- A node is a part of an element when it is the value of a property that is not reserved,
the last child with its path, or what is left of a child without a path. -/
inductive Element.HasPart (element : Element) : Node → Prop
  | prop {name : String} {value : Node} (present : (name, value) ∈ element.props)
      (free : Control.isReserved name = false) : HasPart element value
  | route {before after : List Node} {child : Node} {path : String}
      (split : element.children = before ++ child :: after) (carried : child.path? = some path)
      (last : ∀ later ∈ after, later.path? ≠ some path) : HasPart element child
  | content {child kept : Node} (present : child ∈ element.children)
      (unrouted : child.payload? .path = none) (survives : child.significant? = some kept) :
      HasPart element kept

theorem Children.mem_content_iff {children : List Node} {child : Node} :
    child ∈ Children.content children ↔ child ∈ children ∧ child.payload? .path = none := by
  rw [Children.content, List.mem_filter, Option.isNone_iff_eq_none]

/-- There is content when some child carries no path. -/
theorem Children.content_isEmpty_eq_false_iff {children : List Node} :
    (Children.content children).isEmpty = false ↔
      ∃ child ∈ children, child.payload? .path = none := by
  rw [List.isEmpty_eq_false_iff_exists_mem]
  simp only [Children.mem_content_iff]

theorem Element.mem_assignedProps_iff {element : Element} {pair : String × Node} :
    pair ∈ element.assignedProps ↔
      ∃ name, (name, pair.2) ∈ element.props ∧ Control.isReserved name = false ∧
        pair.1 = element.assignedName name := by
  rw [Element.assignedProps, List.mem_map]
  constructor
  · rintro ⟨⟨name, value⟩, member, rfl⟩
    obtain ⟨present, free⟩ := List.mem_filter.mp member
    exact ⟨name, present, (Bool.not_eq_true' _).mp free, rfl⟩
  · rintro ⟨name, present, free, renamed⟩
    refine ⟨(name, pair.2), List.mem_filter.mpr ⟨present, ?_⟩, Prod.ext renamed.symm rfl⟩
    exact (Bool.not_eq_true' _).mpr free

/-- The list of the parts holds the parts and nothing else. -/
theorem Element.mem_parts_iff {element : Element} {node : Node} :
    node ∈ element.parts ↔ element.HasPart node := by
  constructor
  · intro member
    rcases List.mem_append.mp member with member | content
    · rcases List.mem_append.mp member with prop | route
      · obtain ⟨pair, assigned, rfl⟩ := List.mem_map.mp prop
        obtain ⟨name, present, free, -⟩ := Element.mem_assignedProps_iff.mp assigned
        exact .prop present free
      · obtain ⟨⟨path, child⟩, routed, rfl⟩ := List.mem_map.mp route
        obtain ⟨before, after, split, carried, last⟩ := Children.mem_routed_iff.mp routed
        exact .route split carried last
    · obtain ⟨child, present, survives⟩ := List.mem_filterMap.mp content
      obtain ⟨present, unrouted⟩ := Children.mem_content_iff.mp present
      exact .content present unrouted survives
  · intro part
    cases part with
    | @prop name value present free =>
      show ((element.assignedName name, node) : String × Node).2 ∈ element.parts
      exact Element.mem_parts_of_assigned
        (Element.mem_assignedProps_iff.mpr ⟨name, present, free, rfl⟩)
    | @route before after _ path split carried last =>
      show ((path, node) : String × Node).2 ∈ element.parts
      exact Element.mem_parts_of_routed (Children.mem_routed_iff.mpr
        ⟨before, after, split, carried, last⟩)
    | @content child _ present unrouted survives =>
      exact element.mem_parts_of_content (List.mem_filterMap.mpr
        ⟨child, Children.mem_content_iff.mpr ⟨present, unrouted⟩, survives⟩)

/-- The nodes that are looked at when a document is rendered: the siblings that mean something,
and the parts of the elements among them, at every depth. -/
inductive Reachable (nodes : List Node) : Node → Prop
  | root {node kept : Node} (present : node ∈ nodes) (survives : node.significant? = some kept) :
      Reachable nodes kept
  | part {element : Element} {node : Node} (whole : Reachable nodes (.element element))
      (part : element.HasPart node) : Reachable nodes node

/-! ### Reachable nodes in a row -/

/-- The nodes that are looked at when a node is rendered: itself, and what is looked at when its
parts are. A node that stands in several places is listed once for each. -/
def Node.visited : Node → List Node
  | .leaf content => [.leaf content]
  | .element root => .element root :: root.parts.attach.flatMap fun part => part.1.visited
termination_by node => node.size
decreasing_by
  have smaller : part.1.size < root.size := Element.size_lt_of_mem_parts part.2
  simpa only [Node.size] using smaller

/-- The nodes that are looked at when a document is rendered. -/
def visited (nodes : List Node) : List Node :=
  (Siblings.significant nodes).flatMap Node.visited

theorem Node.visited_leaf (content : Leaf) : (Node.leaf content).visited = [.leaf content] := by
  rw [Node.visited]

theorem Node.visited_element (element : Element) :
    (Node.element element).visited = .element element :: element.parts.flatMap Node.visited := by
  rw [Node.visited]
  simp only [List.flatMap_subtype, List.unattach_attach]

theorem Node.mem_visited_self (node : Node) : node ∈ node.visited := by
  cases node with
  | leaf content => rw [Node.visited_leaf]; exact List.mem_cons_self
  | element element => rw [Node.visited_element]; exact List.mem_cons_self

/-- Where an element is visited, so are its parts. -/
theorem Node.mem_visited_of_part {whole : Node} {element : Element}
    (visited : .element element ∈ whole.visited) {part : Node} (member : part ∈ element.parts) :
    part ∈ whole.visited := by
  induction whole using Node.induction with
  | leaf content =>
    rw [Node.visited_leaf] at visited
    exact absurd (List.mem_singleton.mp visited) nofun
  | element root inductionHypothesis =>
    rw [Node.visited_element] at visited ⊢
    refine List.mem_cons_of_mem _ (List.mem_flatMap.mpr ?_)
    rcases List.mem_cons.mp visited with same | inside
    · rw [Node.element.inj same] at member
      exact ⟨part, member, part.mem_visited_self⟩
    · obtain ⟨other, present, within⟩ := List.mem_flatMap.mp inside
      exact ⟨other, present, inductionHypothesis other present within⟩

theorem Reachable.of_mem_visited {nodes : List Node} {whole node : Node}
    (reachable : Reachable nodes whole) (member : node ∈ whole.visited) :
    Reachable nodes node := by
  induction whole using Node.induction with
  | leaf content =>
    rw [Node.visited_leaf] at member
    rwa [List.mem_singleton.mp member]
  | element root inductionHypothesis =>
    rw [Node.visited_element] at member
    rcases List.mem_cons.mp member with rfl | inside
    · exact reachable
    · obtain ⟨part, present, within⟩ := List.mem_flatMap.mp inside
      exact inductionHypothesis part present
        (reachable.part (Element.mem_parts_iff.mp present)) within

/-- The visited nodes are the reachable ones. -/
theorem mem_visited_iff {nodes : List Node} {node : Node} :
    node ∈ visited nodes ↔ Reachable nodes node := by
  constructor
  · intro member
    obtain ⟨kept, present, within⟩ := List.mem_flatMap.mp member
    obtain ⟨source, root, survives⟩ := List.mem_filterMap.mp present
    exact (Reachable.root root survives).of_mem_visited within
  · intro reachable
    induction reachable with
    | root present survives =>
      exact List.mem_flatMap.mpr
        ⟨_, List.mem_filterMap.mpr ⟨_, present, survives⟩, Node.mem_visited_self _⟩
    | part _ part inductionHypothesis =>
      obtain ⟨kept, present, within⟩ := List.mem_flatMap.mp inductionHypothesis
      exact List.mem_flatMap.mpr
        ⟨kept, present, Node.mem_visited_of_part within (Element.mem_parts_iff.mpr part)⟩

end MarkupBlocks
