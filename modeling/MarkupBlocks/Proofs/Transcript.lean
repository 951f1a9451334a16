/-
What is written and what is reported, side by side.

The transcript of a document is its written form in pieces, from left to right. Two kinds of pieces
stand for something that is reported: the header of the block of an element, and the end of the
value in a slot of an array. So one list tells where something is written and when it is reported,
though an element is reported before the work on its parts and a slot after the work on its node.
-/

import MarkupBlocks.Proofs.Composition

namespace MarkupBlocks

/-! ### Entries -/

/-- The paths of those children that repeat the path of a child before them. -/
def Children.repeatedPaths (children : List Node) : List String :=
  children.zipIdx.filterMap fun child =>
    child.1.path?.filter (· ∈ (children.take child.2).filterMap Node.path?)

/-- What is reported about an element: the repeated paths of its children, and then how many of
them are in each group. -/
def Element.reports (element : Element) : List Event :=
  (Children.repeatedPaths element.children).map Event.duplicatePath ++
    [.classified (Children.routed element.children).length
      (Children.content element.children).length]

/-- A piece of a written document. -/
inductive Entry where
  /-- The header of the block of an element. -/
  | header (element : Element)
  /-- The end of the value in a slot of an array. -/
  | slot (name : String) (node : Node)
  /-- Anything else that is written. -/
  | other (text : String)

namespace Entry

/-- What is written. -/
def text : Entry → String
  | header element => element.prototype ++ " \x7b\n"
  | slot _ _ => ""
  | other text => text

/-- What is reported. -/
def events : Entry → List Event
  | header element => element.reports
  | slot name node => [.slot name node.kind]
  | other _ => []

/-- The element whose block starts. -/
def elements : Entry → List Element
  | header element => [element]
  | slot _ _ | other _ => []

/-- The slot that ends. -/
def slots : Entry → List (String × Node)
  | slot name node => [(name, node)]
  | header _ | other _ => []

end Entry

/-- A block on a line with the indentation given: its header, an assignment on a line of its own for
each name, and its end. -/
def blockEntries (indentation : String) (header : Entry)
    (assignments : List (String × List Entry)) : List Entry :=
  header ::
    (assignments.flatMap fun assignment =>
      .other (indentation ++ indentStep ++ assignment.1 ++ " = ") :: assignment.2 ++
        [.other "\n"]) ++
    [.other (indentation ++ "\x7d")]

section Blocks

variable (indentation : String)

theorem join_text_other (text : String) :
    String.join ([Entry.other text].map Entry.text) = text := by
  rw [List.map_singleton, String.join_cons, String.join_nil, String.append_empty, Entry.text]

/-- The entries of a block are written as the block in which it is assigned what its entries are
written as. -/
theorem join_text_blockEntries {header : Entry} {prototype : String}
    (opens : header.text = prototype ++ " \x7b\n") (assignments : List (String × List Entry)) :
    String.join ((blockEntries indentation header assignments).map Entry.text) =
      writtenBlock indentation prototype
        (assignments.map fun assignment =>
          (assignment.1, String.join (assignment.2.map Entry.text))) := by
  have lines : String.join ((assignments.flatMap fun assignment =>
      .other (indentation ++ indentStep ++ assignment.1 ++ " = ") :: assignment.2 ++
        [.other "\n"]).map Entry.text) =
      String.join (assignments.map fun assignment =>
        indentation ++ indentStep ++ assignment.1 ++ " = " ++
          String.join (assignment.2.map Entry.text) ++ "\n") := by
    induction assignments with
    | nil => rfl
    | cons assignment rest inductionHypothesis =>
      rw [List.flatMap_cons, List.map_append, String.join_append, inductionHypothesis,
        List.map_cons, String.join_cons, List.map_append, String.join_append, List.map_cons,
        String.join_cons]
      rfl
  rw [blockEntries, List.map_append, List.map_cons, String.join_append, String.join_cons, opens,
    lines, join_text_other, ← String.append_assoc, writtenBlock, List.map_map]
  rfl

/-- What is told of the entries of a block, by a telling that has nothing to say of other text. -/
theorem flatMap_blockEntries {Fact : Type} {tell : Entry → List Fact}
    (silent : ∀ text, tell (.other text) = []) (header : Entry)
    (assignments : List (String × List Entry)) :
    (blockEntries indentation header assignments).flatMap tell =
      tell header ++ assignments.flatMap fun assignment => assignment.2.flatMap tell := by
  simp only [blockEntries, List.cons_append, List.flatMap_cons, List.flatMap_append,
    List.flatMap_assoc, silent, List.flatMap_nil, List.nil_append, List.append_nil]

end Blocks

/-! ### Transcripts -/

mutual

/-- The transcript of a node on a line with the indentation given. -/
def Node.transcript (indentation : String) : Node → List Entry
  | .leaf content => [.other content.print]
  | .element root => root.transcript indentation
termination_by node => 3 * node.size + 1
decreasing_by simp only [Node.size]; omega

/-- The transcript of an element. -/
def Element.transcript (indentation : String) (element : Element) : List Entry :=
  blockEntries indentation (.header element)
    ((element.tagProps.map fun pair => (pair.1, [.other pair.2.print])) ++
      (element.assignedProps.attach.map fun pair =>
        (pair.1.1, pair.1.2.transcript (indentation ++ indentStep))) ++
      ((Children.routed element.children).attach.map fun pair =>
        (pair.1.1, pair.1.2.transcript (indentation ++ indentStep))) ++
      element.assignedContent
        (Siblings.transcript (indentation ++ indentStep)
          (Siblings.significant (Children.content element.children))))
termination_by 3 * element.size
decreasing_by
  · have smaller : pair.val.2.size < _ := size_lt_of_mem_assignedProps pair.2
    omega
  · have smaller : pair.val.2.size < _ := size_lt_of_mem_routed pair.2
    omega
  · have smaller := childrenSize_significant_content_lt element
    omega

/-- The transcript of siblings that all mean something. -/
def Siblings.transcript (indentation : String) : List Node → List Entry
  | [] => [.other emptyLiteral]
  | [node] => node.transcript indentation
  | first :: second :: rest =>
    blockEntries indentation (.other (arrayPrototype ++ " \x7b\n"))
      (((first :: second :: rest).zipIdx 1).attach.map fun slot =>
        (slotLabel slot.1.1 slot.1.2, slot.1.1.transcript (indentation ++ indentStep) ++
          [.slot (slotLabel slot.1.1 slot.1.2) slot.1.1]))
termination_by nodes => 3 * childrenSize nodes + 2
decreasing_by
  · simp only [childrenSize]; omega
  · have bound : slot.val.1.size ≤ _ := size_le_of_mem_zipIdx slot.2
    omega

end

/-- The transcript of a document. -/
def transcript (indentation : String) (nodes : List Node) : List Entry :=
  Siblings.transcript indentation (Siblings.significant nodes)

section Equations

variable (indentation : String)

theorem Node.transcript_leaf (content : Leaf) :
    (Node.leaf content).transcript indentation = [.other content.print] := by
  rw [Node.transcript]

theorem Node.transcript_element (root : Element) :
    (Node.element root).transcript indentation = root.transcript indentation := by
  rw [Node.transcript]

theorem Element.transcript_eq (element : Element) :
    element.transcript indentation =
      blockEntries indentation (.header element)
        ((element.tagProps.map fun pair => (pair.1, [.other pair.2.print])) ++
          (element.assignedProps.map fun pair =>
            (pair.1, pair.2.transcript (indentation ++ indentStep))) ++
          ((Children.routed element.children).map fun pair =>
            (pair.1, pair.2.transcript (indentation ++ indentStep))) ++
          element.assignedContent
            (Siblings.transcript (indentation ++ indentStep)
              (Siblings.significant (Children.content element.children)))) := by
  rw [Element.transcript]
  simp only [List.map_subtype, List.unattach_attach]

theorem Siblings.transcript_nil : Siblings.transcript indentation [] = [.other emptyLiteral] := by
  rw [Siblings.transcript]

theorem Siblings.transcript_singleton (node : Node) :
    Siblings.transcript indentation [node] = node.transcript indentation := by
  rw [Siblings.transcript]

theorem Siblings.transcript_of_two_le {nodes : List Node} (several : 2 ≤ nodes.length) :
    Siblings.transcript indentation nodes =
      blockEntries indentation (.other (arrayPrototype ++ " \x7b\n"))
        ((nodes.zipIdx 1).map fun slot =>
          (slotLabel slot.1 slot.2, slot.1.transcript (indentation ++ indentStep) ++
            [.slot (slotLabel slot.1 slot.2) slot.1])) := by
  match nodes with
  | first :: second :: rest =>
    rw [Siblings.transcript]
    simp only [List.map_subtype, List.unattach_attach]

end Equations

/-! ### The transcript is written as the document -/

section Text

variable (indentation : String)

theorem Siblings.join_text_transcript_of_forall {nodes : List Node}
    (each : ∀ node ∈ nodes, ∀ indentation,
      String.join ((node.transcript indentation).map Entry.text) =
        node.outline.value.print indentation) :
    String.join ((Siblings.transcript indentation nodes).map Entry.text) =
      (Siblings.outline nodes).value.print indentation := by
  match nodes with
  | [] =>
    rw [Siblings.transcript_nil, Siblings.outline_nil]
    rfl
  | [node] =>
    rw [Siblings.transcript_singleton, Siblings.outline_singleton]
    exact each node List.mem_cons_self indentation
  | first :: second :: rest =>
    have several : 2 ≤ (first :: second :: rest).length := Nat.le_add_left 2 rest.length
    rw [Siblings.transcript_of_two_le indentation several, Siblings.outline_of_two_le several,
      Outline.print_block, join_text_blockEntries indentation rfl, List.map_map, List.map_map]
    refine congrArg _ (List.map_congr_left fun slot member => congrArg (Prod.mk _) ?_)
    rw [List.map_append, String.join_append, each slot.1 (List.fst_mem_of_mem_zipIdx member)]
    exact String.append_empty

/-- The transcript of a node is written as the node. -/
theorem Node.join_text_transcript (node : Node) :
    String.join ((node.transcript indentation).map Entry.text) =
      node.outline.value.print indentation := by
  induction node using Node.induction generalizing indentation with
  | leaf content =>
    rw [Node.transcript_leaf, Node.outline_leaf, Outline.value, Value.print, join_text_other]
  | element element inductionHypothesis =>
    have tag (pair : String × Leaf) :
        String.join ([Entry.other pair.2.print].map Entry.text) =
          (Outline.leaf pair.2).value.print (indentation ++ indentStep) := by
      rw [join_text_other, Outline.value, Value.print]
    have content := Siblings.join_text_transcript_of_forall (indentation ++ indentStep)
      fun part member => inductionHypothesis part (element.mem_parts_of_content member)
    rw [Node.transcript_element, Node.outline_element, Element.transcript_eq, Element.outline_eq,
      Outline.print_block, join_text_blockEntries indentation rfl]
    simp only [List.map_append, List.map_map, Element.tagOutline,
      element.map_assignedContent fun entries : List Entry => String.join (entries.map Entry.text),
      element.map_assignedContent fun outline : Outline =>
        outline.value.print (indentation ++ indentStep),
      content]
    refine congrArg _ (congrArg (· ++ _) (congrArg₂ _ (congrArg₂ _ ?_ ?_) ?_))
    · exact List.map_congr_left fun pair _ => congrArg (Prod.mk _) (tag pair)
    · exact List.map_congr_left fun pair member => congrArg (Prod.mk _)
        (inductionHypothesis pair.2 (Element.mem_parts_of_assigned member) _)
    · exact List.map_congr_left fun pair member => congrArg (Prod.mk _)
        (inductionHypothesis pair.2 (Element.mem_parts_of_routed member) _)

/-- The transcript of a document is written as its assignment tree. -/
theorem join_text_transcript (nodes : List Node) :
    String.join ((transcript indentation nodes).map Entry.text) =
      (assignmentTree nodes).print indentation :=
  Siblings.join_text_transcript_of_forall indentation fun node _ indentation =>
    node.join_text_transcript indentation

end Text

/-! ### What is told along the way -/

section Tellings

variable {Fact : Type} {tell : Entry → List Fact} (silent : ∀ text, tell (.other text) = [])
  (indentation : String)

include silent

/-- What is told of several siblings: of each sibling, and then of its slot. -/
theorem Siblings.flatMap_transcript_of_two_le {nodes : List Node} (several : 2 ≤ nodes.length) :
    (Siblings.transcript indentation nodes).flatMap tell =
      (nodes.zipIdx 1).flatMap fun slot =>
        (slot.1.transcript (indentation ++ indentStep)).flatMap tell ++
          tell (.slot (slotLabel slot.1 slot.2) slot.1) := by
  rw [Siblings.transcript_of_two_le indentation several, flatMap_blockEntries indentation silent,
    silent, List.nil_append, List.flatMap_map]
  refine List.flatMap_congr fun slot _ => ?_
  rw [List.flatMap_append, List.flatMap_singleton]

/-- What is told of an element: of its header, and then of its parts. -/
theorem Element.flatMap_transcript (element : Element) :
    (element.transcript indentation).flatMap tell =
      tell (.header element) ++
        (element.assignedProps.flatMap fun pair =>
          (pair.2.transcript (indentation ++ indentStep)).flatMap tell) ++
        ((Children.routed element.children).flatMap fun pair =>
          (pair.2.transcript (indentation ++ indentStep)).flatMap tell) ++
        (Siblings.transcript (indentation ++ indentStep)
          (Siblings.significant (Children.content element.children))).flatMap tell := by
  have content : ((element.assignedContent (Siblings.transcript (indentation ++ indentStep)
      (Siblings.significant (Children.content element.children)))).flatMap
        fun assignment => assignment.2.flatMap tell) =
      (Siblings.transcript (indentation ++ indentStep)
        (Siblings.significant (Children.content element.children))).flatMap tell := by
    rw [Element.assignedContent_eq]
    split
    · next none =>
      rw [List.isEmpty_iff.mp none]
      show [] = (Siblings.transcript _ []).flatMap tell
      rw [Siblings.transcript_nil, List.flatMap_singleton, silent]
    · rw [List.flatMap_singleton]
  have tag : ((element.tagProps.map fun pair => (pair.1, [Entry.other pair.2.print])).flatMap
      fun assignment => assignment.2.flatMap tell) = [] := by
    rw [List.flatMap_map]
    exact List.flatMap_eq_nil_iff.mpr fun pair _ => by rw [List.flatMap_singleton, silent]
  rw [Element.transcript_eq, flatMap_blockEntries indentation silent]
  simp only [List.flatMap_append, tag, content, List.flatMap_map, List.append_assoc,
    List.nil_append]

end Tellings

end MarkupBlocks
