/-
The number of blocks of a document.

A block is written for every element, and for every list of several siblings that mean something.
The elements that are written are those that are visited, and so are the lists, apart from the
document itself. So the blocks of an outline can be counted among the visited nodes.
-/

import MarkupBlocks.Proofs.Outline

namespace MarkupBlocks

mutual

/-- The number of blocks of an outline. -/
def Outline.blocks : Outline → Nat
  | .leaf _ => 0
  | .block _ assignments => assignedBlocks assignments + 1

/-- The number of blocks of what is assigned to names. -/
def assignedBlocks : List (String × Outline) → Nat
  | [] => 0
  | (_, outline) :: rest => outline.blocks + assignedBlocks rest

end

theorem assignedBlocks_append (left right : List (String × Outline)) :
    assignedBlocks (left ++ right) = assignedBlocks left + assignedBlocks right := by
  induction left with
  | nil => exact (Nat.zero_add _).symm
  | cons pair rest inductionHypothesis =>
    rw [List.cons_append, assignedBlocks, assignedBlocks, inductionHypothesis, Nat.add_assoc]

/-- A node is an element. -/
def Node.isElement (node : Node) : Bool :=
  node.element?.isSome

/-- A node is an element whose content is a list of several siblings that mean something. -/
def Node.holdsSeveral : Node → Bool
  | .leaf _ => false
  | .element root => 2 ≤ (Siblings.significant (Children.content root.children)).length

/-- How many of the nodes are elements, and how many hold several siblings. -/
def blockCount (nodes : List Node) : Nat :=
  nodes.countP Node.isElement + nodes.countP Node.holdsSeveral

theorem blockCount_append (left right : List Node) :
    blockCount (left ++ right) = blockCount left + blockCount right := by
  simp only [blockCount, List.countP_append]
  omega

theorem blockCount_visited_element (element : Element) :
    blockCount (Node.element element).visited =
      1 + (if 2 ≤ (Siblings.significant (Children.content element.children)).length then 1 else 0) +
        blockCount (element.parts.flatMap Node.visited) := by
  have isElement : (Node.element element).isElement = true := rfl
  rw [Node.visited_element, blockCount, blockCount, List.countP_cons_of_pos isElement,
    List.countP_cons, Node.holdsSeveral]
  simp only [decide_eq_true_eq]
  omega

theorem assignedBlocks_outlines {Source : Type} {sources : List Source} {label : Source → String}
    {node : Source → Node}
    (each : ∀ source ∈ sources, (node source).outline.blocks = blockCount (node source).visited) :
    assignedBlocks (sources.map fun source => (label source, (node source).outline)) =
      blockCount ((sources.map node).flatMap Node.visited) := by
  induction sources with
  | nil => rfl
  | cons source rest inductionHypothesis =>
    have others := inductionHypothesis fun other member =>
      each other (List.mem_cons_of_mem _ member)
    rw [List.map_cons, List.map_cons, assignedBlocks, each source List.mem_cons_self, others,
      List.flatMap_cons, blockCount_append]

theorem Siblings.blocks_outline {nodes : List Node}
    (each : ∀ node ∈ nodes, node.outline.blocks = blockCount node.visited) :
    (Siblings.outline nodes).blocks =
      (if 2 ≤ nodes.length then 1 else 0) + blockCount (nodes.flatMap Node.visited) := by
  match nodes with
  | [] =>
    rw [Siblings.outline_nil, Outline.blocks]
    rfl
  | [node] =>
    rw [Siblings.outline_singleton, each node List.mem_cons_self, List.flatMap_singleton]
    exact (Nat.zero_add _).symm
  | first :: second :: rest =>
    have several : 2 ≤ (first :: second :: rest).length := Nat.le_add_left 2 rest.length
    rw [Siblings.outline_of_two_le several, Outline.blocks,
      assignedBlocks_outlines fun slot present => each slot.1 (List.fst_mem_of_mem_zipIdx present),
      List.zipIdx_map_fst, if_pos several, Nat.add_comm]

theorem Element.blocks_tagOutline (element : Element) : assignedBlocks element.tagOutline = 0 := by
  unfold Element.tagOutline Element.tagProps
  split
  · rfl
  · split <;> rfl

/-- An element without content assigns none, and then there is nothing in it to be visited. -/
theorem Element.blocks_assignedContent {element : Element} {content : Outline}
    (blocks : content.blocks =
      (if 2 ≤ (Siblings.significant (Children.content element.children)).length then 1 else 0) +
        blockCount ((Siblings.significant (Children.content element.children)).flatMap
          Node.visited)) :
    assignedBlocks (element.assignedContent content) = content.blocks := by
  rw [Element.assignedContent_eq]
  split
  · next none =>
    rw [blocks, List.isEmpty_iff.mp none]
    rfl
  · rw [assignedBlocks, assignedBlocks, Nat.add_zero]

/-- The outline of a node has a block for each element that is visited, and one for each list of
several siblings. -/
theorem Node.blocks_outline (node : Node) : node.outline.blocks = blockCount node.visited := by
  induction node using Node.induction with
  | leaf content =>
    rw [Node.outline_leaf, Node.visited_leaf, Outline.blocks]
    rfl
  | element element inductionHypothesis =>
    have content := Siblings.blocks_outline fun part member =>
      inductionHypothesis part (element.mem_parts_of_content member)
    rw [Node.outline_element, Element.outline_eq, Outline.blocks, blockCount_visited_element,
      Element.parts]
    simp only [assignedBlocks_append, List.flatMap_append, blockCount_append]
    rw [Element.blocks_tagOutline, Element.blocks_assignedContent content, content,
      assignedBlocks_outlines fun prop member =>
        inductionHypothesis prop.2 (Element.mem_parts_of_assigned member),
      assignedBlocks_outlines fun route member =>
        inductionHypothesis route.2 (Element.mem_parts_of_routed member)]
    omega

end MarkupBlocks
