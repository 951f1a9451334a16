/-
No content breaks out of its literal.

A document is written from plain text, braces and leaves. Its texts are escaped, so they stay in
their literals whatever is in them; a literal of the author does when its backslashes pair up.
Then a scanner of the text finds the quoted leaves of the document as its literals, one by one
and in their order, and braces that are balanced outside them.
-/

import Mathlib.Data.List.Basic
import MarkupBlocks.Proofs.Journal
import MarkupBlocks.Proofs.Printing
import MarkupBlocks.Proofs.Scanning
import MarkupBlocks.Proofs.Strings

namespace MarkupBlocks

/-! ### Leaves -/

/-- The literals that a leaf is written as: itself when it is quoted. -/
def Leaf.quoted : Leaf → List String
  | .expression _ => []
  | .literal value => [(Leaf.literal value).print]
  | .text value => [(Leaf.text value).print]
  | .boolean _ => []

theorem contained_expression {code : String} (plain : Plain code.toList) :
    Contained (Leaf.expression code).print.toList (Leaf.expression code).quoted := by
  have dollar : Plain ['$'] := by decide
  rw [toList_print_expression]
  exact (contained_of_plain dollar).append (contained_of_plain plain).braces

theorem contained_boolean (value : Bool) :
    Contained (Leaf.boolean value).print.toList (Leaf.boolean value).quoted := by
  rw [toList_print_boolean]
  exact contained_of_plain (by decide)

/-- An attribute value is contained when its backslashes pair up. -/
theorem contained_literal {value : String} (paired : Text.PairedBackslashes value.toList) :
    Contained (Leaf.literal value).print.toList (Leaf.literal value).quoted := by
  have inside := (Text.takenAfter?_escapeAttribute_iff false value.toList).mpr
    ((Text.pairsBackslashes_iff value.toList).mpr paired)
  have contained := contained_of_quoted inside
  rw [← toList_print_literal, String.ofList_toList] at contained
  exact contained

/-- A raw text is contained, whatever is in it. -/
theorem contained_text (value : String) :
    Contained (Leaf.text value).print.toList (Leaf.text value).quoted := by
  have contained := contained_of_quoted (Text.takenAfter?_escapeRaw value.toList)
  rw [← toList_print_text, String.ofList_toList] at contained
  exact contained

/-! ### Quoted leaves

A tree is written from its start to its end, so the order of its quoted leaves is that of its
parts. Siblings of which none means something are written as an empty literal. -/

/-- The empty literal that is written for siblings when there are none. -/
def Siblings.filler (nodes : List Node) : List String :=
  if nodes.isEmpty then [(Leaf.text "").print] else []

/-- The name of a plain tag, which is written as a literal. -/
def Element.quotedTag (element : Element) : List String :=
  if element.isQualified then [] else [(Leaf.literal element.identifier).print]

/-- The empty literal that is written for a content of which nothing means something. -/
def Element.filler (element : Element) : List String :=
  if (Children.content element.children).isEmpty then []
  else Siblings.filler (Siblings.significant (Children.content element.children))

/-- The quoted leaves of a node, in the order in which they are written. -/
def Node.quoted : Node → List String
  | .leaf content => content.quoted
  | .element root =>
    root.quotedTag ++ root.parts.attach.flatMap (fun part => part.1.quoted) ++ root.filler
termination_by node => node.size
decreasing_by
  have smaller : part.1.size < root.size := Element.size_lt_of_mem_parts part.2
  simpa only [Node.size] using smaller

/-- The quoted leaves of a document, in the order in which they are written. -/
def quotedLeaves (nodes : List Node) : List String :=
  (Siblings.significant nodes).flatMap Node.quoted ++
    Siblings.filler (Siblings.significant nodes)

theorem Node.quoted_leaf (content : Leaf) : (Node.leaf content).quoted = content.quoted := by
  rw [Node.quoted]

theorem Node.quoted_element (element : Element) :
    (Node.element element).quoted =
      element.quotedTag ++ element.parts.flatMap Node.quoted ++ element.filler := by
  rw [Node.quoted]
  simp only [List.flatMap_subtype, List.unattach_attach]

/-! ### Quoted leaves of an outline -/

mutual

/-- The quoted leaves of an outline, from its start to its end. -/
def Outline.quoted : Outline → List String
  | .leaf content => content.quoted
  | .block _ assignments => assignedQuoted assignments

/-- The quoted leaves of what is assigned to names. -/
def assignedQuoted : List (String × Outline) → List String
  | [] => []
  | (_, outline) :: rest => outline.quoted ++ assignedQuoted rest

end

theorem assignedQuoted_eq_flatMap (assignments : List (String × Outline)) :
    assignedQuoted assignments = assignments.flatMap fun pair => pair.2.quoted := by
  induction assignments with
  | nil => rfl
  | cons head rest inductionHypothesis =>
    rw [assignedQuoted, List.flatMap_cons, inductionHypothesis]

theorem assignedQuoted_append (left right : List (String × Outline)) :
    assignedQuoted (left ++ right) = assignedQuoted left ++ assignedQuoted right := by
  simp only [assignedQuoted_eq_flatMap, List.flatMap_append]

/-- The outlines of nodes have the quoted leaves of the nodes when each has. -/
theorem assignedQuoted_outlines {Source : Type} {sources : List Source} {label : Source → String}
    {node : Source → Node}
    (each : ∀ source ∈ sources, (node source).outline.quoted = (node source).quoted) :
    assignedQuoted (sources.map fun source => (label source, (node source).outline)) =
      (sources.map node).flatMap Node.quoted := by
  rw [assignedQuoted_eq_flatMap, List.flatMap_map, List.flatMap_map]
  exact List.flatMap_congr each

theorem Siblings.quoted_outline {nodes : List Node}
    (each : ∀ node ∈ nodes, node.outline.quoted = node.quoted) :
    (Siblings.outline nodes).quoted = nodes.flatMap Node.quoted ++ Siblings.filler nodes := by
  match nodes with
  | [] =>
    rw [Siblings.outline_nil, Outline.quoted]
    rfl
  | [node] =>
    rw [Siblings.outline_singleton, each node List.mem_cons_self, List.flatMap_singleton]
    exact (List.append_nil _).symm
  | first :: second :: rest =>
    have several : 2 ≤ (first :: second :: rest).length := Nat.le_add_left 2 rest.length
    rw [Siblings.outline_of_two_le several, Outline.quoted,
      assignedQuoted_outlines fun slot present => each slot.1 (List.fst_mem_of_mem_zipIdx present),
      List.zipIdx_map_fst]
    exact (List.append_nil _).symm

theorem Element.quoted_tagOutline (element : Element) :
    assignedQuoted element.tagOutline = element.quotedTag := by
  unfold Element.tagOutline Element.tagProps Element.quotedTag
  split
  · rfl
  · split
    · rfl
    · rfl

theorem Element.quoted_assignedContent {element : Element} {content : Outline}
    (quoted : content.quoted = (Siblings.significant (Children.content element.children)).flatMap
      Node.quoted ++ Siblings.filler (Siblings.significant (Children.content element.children))) :
    assignedQuoted (element.assignedContent content) =
      (Siblings.significant (Children.content element.children)).flatMap Node.quoted ++
        element.filler := by
  rw [Element.assignedContent_eq, Element.filler]
  split
  · next none =>
    rw [List.isEmpty_iff.mp none]
    rfl
  · rw [assignedQuoted, quoted, assignedQuoted, List.append_nil]

/-- The outline of a node has the quoted leaves of the node. -/
theorem Node.quoted_outline (node : Node) : node.outline.quoted = node.quoted := by
  induction node using Node.induction with
  | leaf content => rw [Node.outline_leaf, Node.quoted_leaf, Outline.quoted]
  | element element inductionHypothesis =>
    have content := Siblings.quoted_outline fun part member =>
      inductionHypothesis part (element.mem_parts_of_content member)
    rw [Node.outline_element, Element.outline_eq, Outline.quoted, Node.quoted_element,
      Element.parts]
    simp only [assignedQuoted_append, List.flatMap_append]
    rw [Element.quoted_tagOutline, Element.quoted_assignedContent content,
      assignedQuoted_outlines fun prop member =>
        inductionHypothesis prop.2 (Element.mem_parts_of_assigned member),
      assignedQuoted_outlines fun route member =>
        inductionHypothesis route.2 (Element.mem_parts_of_routed member)]
    simp only [List.append_assoc]

/-! ### Contained outlines -/

/-- What the scanner relies on. -/
def containedOutline : OutlineRule where
  prototype text := Plain text.toList
  name text := Plain text.toList
  leaf content := Contained content.print.toList content.quoted

theorem contained_assignments {assignments : List (String × Outline)}
    (names : ∀ pair ∈ assignments, Plain pair.1.toList) {indentation : String}
    (values : ∀ pair ∈ assignments, Contained (pair.2.chars indentation) pair.2.quoted)
    (plain : Plain indentation.toList) :
    Contained (assignmentChars indentation assignments) (assignedQuoted assignments) := by
  induction assignments with
  | nil =>
    rw [assignmentChars_nil, assignedQuoted]
    exact contained_nil
  | cons head rest inductionHypothesis =>
    obtain ⟨name, outline⟩ := head
    have equals : Plain [' ', '=', ' '] := by decide
    have lineFeed : Plain ['\n'] := by decide
    have start := contained_of_plain
      (plain_append_iff.mpr ⟨plain_append_iff.mpr ⟨plain, names _ List.mem_cons_self⟩, equals⟩)
    have value := values _ List.mem_cons_self
    have others := inductionHypothesis
      (fun pair member => names pair (List.mem_cons_of_mem _ member))
      fun pair member => values pair (List.mem_cons_of_mem _ member)
    have line := (start.append value).append (contained_of_plain lineFeed)
    rw [List.nil_append, List.append_nil] at line
    rw [assignmentChars_cons, assignedQuoted]
    exact line.append others

theorem contained_block {prototype : String} {assignments : List (String × Outline)}
    {indentation : String} (head : Plain prototype.toList) (plain : Plain indentation.toList)
    (inside : Contained (assignmentChars (indentation ++ indentStep) assignments)
      (assignedQuoted assignments)) :
    Contained ((Outline.block prototype assignments).chars indentation)
      (Outline.block prototype assignments).quoted := by
  have space : Plain [' '] := by decide
  have lineFeed : Plain ['\n'] := by decide
  have start := contained_of_plain (plain_append_iff.mpr ⟨head, space⟩)
  have body := ((contained_of_plain lineFeed).append inside).append (contained_of_plain plain)
  have block := start.append body.braces
  rw [List.nil_append, List.nil_append, List.append_nil] at block
  rw [Outline.chars_block, Outline.quoted]
  simpa only [List.append_assoc, List.cons_append, List.nil_append] using block

/-- The written form of an outline is contained. -/
theorem contained_chars {outline : Outline} (obeys : outline.Obeys containedOutline)
    {indentation : String} (plain : Plain indentation.toList) :
    Contained (outline.chars indentation) outline.quoted := by
  induction outline using Outline.induction generalizing indentation with
  | leaf content =>
    rw [Outline.chars_leaf, Outline.quoted]
    cases obeys with
    | leaf obeys => exact obeys
  | block prototype assignments inductionHypothesis =>
    cases obeys with
    | block head names values =>
      have deeper : Plain (indentation ++ indentStep).toList := by
        rw [String.toList_append]
        exact plain_append_iff.mpr ⟨plain, by decide⟩
      exact contained_block head plain (contained_assignments names
        (fun pair member => inductionHypothesis pair member (values pair member) deeper) deeper)

/-! ### Documents -/

/-- Nothing is asked of a text. What is written in no literal holds no quote and no brace, and
the backslashes of what is written as the author's own literal pair up. -/
def containable : Role → String → Prop
  | .prototype, string | .name, string | .payload, string | .code, string => Plain string.toList
  | .tag, string | .literal, string => Text.PairedBackslashes string.toList
  | .text, _ | .content, _ => True

instance (role : Role) (string : String) : Decidable (containable role string) := by
  cases role <;> unfold containable <;> infer_instance

theorem plain_of_digits {chars : List Char} (digits : ∀ char ∈ chars, char.isDigit = true) :
    Plain chars := by
  refine ⟨fun member => ?_, fun member => ?_, fun member => ?_⟩
  · exact absurd (digits _ member) (by decide)
  · exact absurd (digits _ member) (by decide)
  · exact absurd (digits _ member) (by decide)

theorem containable_carries : Carries containable containedOutline where
  prototype plain := plain
  tagPrototype := (by decide : Plain MarkupBlocks.tagPrototype.toList)
  arrayPrototype := (by decide : Plain MarkupBlocks.arrayPrototype.toList)
  name plain := plain
  attributeName plain := by
    show Plain (attributeScope ++ _).toList
    rw [String.toList_append]
    exact plain_append_iff.mpr ⟨by decide, plain⟩
  payload plain := plain
  position number := plain_of_digits fun _ => isDigit_of_mem_toString
  tagNameProp := (by decide : Plain MarkupBlocks.tagNameProp.toList)
  selfClosingProp := (by decide : Plain MarkupBlocks.selfClosingProp.toList)
  contentProp := (by decide : Plain MarkupBlocks.contentProp.toList)
  code := contained_expression
  literal := contained_literal
  tag := contained_literal
  text _ := contained_text _
  content _ := contained_text _
  empty := contained_text ""
  boolean := contained_boolean

/-- Nothing in a document breaks out of its literal: a scanner comes to the end of the text at
depth zero and outside every literal, was never at a depth below zero, and has seen the quoted
leaves of the document and no other literal. -/
theorem scanned_render {indentation : String} {limit : Option Nat} {nodes : List Node}
    {text : String} (plain : Plain indentation.toList) (obeys : DocumentObeys containable nodes)
    (renders : (Settings.render ⟨indentation, limit⟩ nodes).result = .ok text) :
    scanned text.toList = ⟨0, none, quotedLeaves nodes⟩ ∧
      ∀ start, start <+: text.toList → 0 ≤ (scanned start).depth := by
  have contained := contained_chars (documentOutline_obeys containable_carries obeys) plain
  have written : text.toList =
      (Siblings.outline (Siblings.significant nodes)).chars indentation := by
    rw [eq_print_of_render_ok renders]
    rfl
  rw [Siblings.quoted_outline fun node _ => node.quoted_outline] at contained
  rw [written]
  exact ⟨contained.ends 0 [], contained.floor 0 []⟩

/-- Quotes, braces, backslashes and a NUL in a tag, in an attribute and in a text, beside a child
that is routed away and has nothing in it but layout. -/
theorem scanned_render_escapes :
    let part := Node.element
      ⟨"Vendor:Part", [("@path", .leaf (.literal "slot"))], [.leaf (.text "\n ")], false⟩
    let tag := Node.element ⟨"a\\\\",
      [("title", .leaf (.literal "\\\\'\x7b")), ("@if", .leaf (.expression "x"))], [part], false⟩
    let nodes := [tag, .leaf (.text "'\x7d\\\x00")]
    let text := "Neos.Fusion:Array \x7b\n     1 = Neos.Fusion:Tag \x7b\n" ++
      "         tagName = 'a\\\\'\n         attributes.title = '\\\\\\'\x7b'\n" ++
      "         @if = $\x7bx\x7d\n         slot = Vendor:Part \x7b\n" ++
      "             content = ''\n         \x7d\n     \x7d\n     2 = '\\'\x7d\\\\\\0'\n \x7d"
    Plain " ".toList ∧ DocumentObeys containable nodes ∧
      (Settings.render ⟨" ", none⟩ nodes).result = .ok text ∧
      scanned text.toList =
        ⟨0, none, ["'a\\\\'", "'\\\\\\'\x7b'", "''", "'\\'\x7d\\\\\\0'"]⟩ ∧
      ∀ start, start <+: text.toList → 0 ≤ (scanned start).depth := by
  intro part tag nodes text
  have plain : Plain " ".toList := by decide
  have obeys : DocumentObeys containable nodes := by decide +kernel
  have renders : (Settings.render ⟨" ", none⟩ nodes).result = .ok text := by decide +kernel
  have leaves : quotedLeaves nodes =
      ["'a\\\\'", "'\\\\\\'\x7b'", "''", "'\\'\x7d\\\\\\0'"] := by decide +kernel
  obtain ⟨ends, floor⟩ := scanned_render plain obeys renders
  rw [leaves] at ends
  exact ⟨plain, obeys, renders, ends, floor⟩

end MarkupBlocks
