/-
The text of an element is put together from the texts of its parts.

Each part of an element can be rendered on its own, on a line of the block and with one level less
to go. An element renders when the control properties that are asked for can be read and each part
renders, and then its text is that of a block in which the texts of the parts are assigned. A part
that is rendered on its own starts at the outermost level, though within the element it lies one
level deeper: its journal is the same but for the levels, and a limit that is one less lets the
same steps pass.
-/

import MarkupBlocks.Proofs.Decisions
import MarkupBlocks.Proofs.DepthLimit
import MarkupBlocks.Proofs.Faults

namespace MarkupBlocks

/-! ### One level deeper -/

/-- The same step of the work on a tree that lies one level deeper. -/
def Step.deeper : Step → Step
  | .enter level => .enter (level + 1)
  | .event reported => .event reported
  | .fault found => .fault found

theorem map_deeper_payloadSteps (control : Control) (payload : Option Node) :
    (payloadSteps control payload).map Step.deeper = payloadSteps control payload := by
  unfold payloadSteps
  split
  · rfl
  · split <;> rfl

theorem map_deeper_pathSteps (seen : List String) (children : List Node) :
    (pathSteps seen children).map Step.deeper = pathSteps seen children := by
  induction children generalizing seen with
  | nil => rfl
  | cons child rest inductionHypothesis =>
    rw [pathSteps, List.map_append, map_deeper_payloadSteps]
    refine congrArg _ ?_
    cases child.path? with
    | none => exact inductionHypothesis seen
    | some path =>
      rw [List.map_append, inductionHypothesis (path :: seen)]
      refine congrArg (· ++ _) ?_
      split <;> rfl

theorem map_deeper_classifySteps (children : List Node) :
    (classifySteps children).map Step.deeper = classifySteps children := by
  rw [classifySteps, List.map_append, map_deeper_pathSteps]
  rfl

theorem map_deeper_contentSteps (element : Element) (steps : List Step) :
    (contentSteps element steps).map Step.deeper =
      contentSteps element (steps.map Step.deeper) := by
  unfold contentSteps
  split
  · rfl
  · rw [List.map_append, map_deeper_payloadSteps]

theorem map_deeper_slotSteps (node : Node) (position : Nat) (steps : List Step) :
    (slotSteps node position steps).map Step.deeper =
      slotSteps node position (steps.map Step.deeper) := by
  rw [slotSteps, slotSteps, List.map_append, List.map_append, map_deeper_payloadSteps]
  rfl

theorem Siblings.journal_succ_of_forall {depth : Nat} {nodes : List Node}
    (each : ∀ node ∈ nodes, node.journal (depth + 1) = (node.journal depth).map Step.deeper) :
    Siblings.journal (depth + 1) nodes = (Siblings.journal depth nodes).map Step.deeper := by
  match nodes with
  | [] => rw [Siblings.journal_nil, Siblings.journal_nil, List.map_nil]
  | [node] =>
    rw [Siblings.journal_singleton, Siblings.journal_singleton, each node List.mem_cons_self]
  | first :: second :: rest =>
    have several : 2 ≤ (first :: second :: rest).length := Nat.le_add_left 2 rest.length
    rw [Siblings.journal_of_two_le _ several, Siblings.journal_of_two_le _ several,
      List.map_flatMap]
    refine List.flatMap_congr fun slot member => ?_
    rw [map_deeper_slotSteps, each slot.1 (List.fst_mem_of_mem_zipIdx member)]

/-- The journal of a node that lies one level deeper. -/
theorem Node.journal_succ (depth : Nat) (node : Node) :
    node.journal (depth + 1) = (node.journal depth).map Step.deeper := by
  induction node using Node.induction generalizing depth with
  | leaf content => rw [Node.journal_leaf, Node.journal_leaf, List.map_nil]
  | element element inductionHypothesis =>
    have props (pair : String × Node) (member : pair ∈ element.assignedProps) :=
      inductionHypothesis pair.2 (Element.mem_parts_of_assigned member) (depth + 1)
    have routes (pair : String × Node) (member : pair ∈ Children.routed element.children) :=
      inductionHypothesis pair.2 (Element.mem_parts_of_routed member) (depth + 1)
    have contents := Siblings.journal_succ_of_forall fun part member =>
      inductionHypothesis part (element.mem_parts_of_content member) (depth + 1)
    rw [Node.journal_element, Node.journal_element, Element.journal_eq, Element.journal_eq,
      List.flatMap_congr props, List.flatMap_congr routes, contents]
    simp only [List.map_append, List.map_flatMap, map_deeper_classifySteps,
      map_deeper_contentSteps]
    rfl

theorem Siblings.journal_succ (depth : Nat) (nodes : List Node) :
    Siblings.journal (depth + 1) nodes = (Siblings.journal depth nodes).map Step.deeper :=
  Siblings.journal_succ_of_forall fun node _ => node.journal_succ depth

/-- A step one level deeper passes a limit that is one higher. -/
theorem Step.passes_deeper_iff {limit : Option Nat} {step : Step} :
    step.deeper.Passes (limit.map (· + 1)) ↔ step.Passes limit := by
  cases step with
  | enter level =>
    cases limit with
    | none => rfl
    | some limit =>
      have levels : limit + 1 < level + 1 ↔ limit < level := Nat.add_lt_add_iff_right
      by_cases beyond : limit < level
      · rw [deeper, Passes, Passes, Option.map_some, checkLevel_of_lt beyond,
          checkLevel_of_lt (levels.mpr beyond)]
        simp only [Traced.result_fail, reduceCtorEq]
      · rw [deeper, Passes, Passes, Option.map_some, checkLevel_of_le (Nat.not_lt.mp beyond),
          checkLevel_of_le (Nat.not_lt.mp (mt levels.mp beyond))]
  | event reported => rfl
  | fault found => rfl

theorem passes_map_deeper_iff {limit : Option Nat} {steps : List Step} :
    (∀ step ∈ steps.map Step.deeper, step.Passes (limit.map (· + 1))) ↔
      ∀ step ∈ steps, step.Passes limit := by
  simp only [List.forall_mem_map, Step.passes_deeper_iff]

/-! ### Steps that pass -/

section Passes

variable {limit : Option Nat}

theorem passes_payloadSteps_iff {control : Control} {payload : Option Node} :
    (∀ step ∈ payloadSteps control payload, step.Passes limit) ↔ ¬ Unreadable payload := by
  cases payload with
  | none => exact iff_of_true (List.forall_mem_nil _) not_unreadable_none
  | some node =>
    rw [payloadSteps]
    cases literal : node.literal? with
    | none =>
      refine iff_of_false (fun passes => ?_) (fun readable => readable ⟨node, rfl, literal⟩)
      exact passes _ List.mem_cons_self
    | some text =>
      exact iff_of_true (List.forall_mem_nil _) (not_unreadable_of_literal? literal)

theorem passes_pathSteps_iff {seen : List String} {children : List Node} :
    (∀ step ∈ pathSteps seen children, step.Passes limit) ↔
      ∀ child ∈ children, ¬ Unreadable (child.payload? .path) := by
  induction children generalizing seen with
  | nil => exact iff_of_true (List.forall_mem_nil _) (List.forall_mem_nil _)
  | cons child rest inductionHypothesis =>
    rw [pathSteps, List.forall_mem_append, passes_payloadSteps_iff, List.forall_mem_cons]
    refine and_congr_right fun _ => ?_
    cases child.path? with
    | none => exact inductionHypothesis
    | some path =>
      rw [List.forall_mem_append, inductionHypothesis]
      refine and_iff_right ?_
      split
      · exact List.forall_mem_singleton.mpr trivial
      · exact List.forall_mem_nil _

theorem passes_classifySteps_iff {children : List Node} :
    (∀ step ∈ classifySteps children, step.Passes limit) ↔
      ∀ child ∈ children, ¬ Unreadable (child.payload? .path) := by
  rw [classifySteps, List.forall_mem_append, passes_pathSteps_iff]
  exact and_iff_left (List.forall_mem_singleton.mpr trivial)

end Passes

/-! ### Pieces of an element -/

/-- What an element assigns: a name, and the run over one of its parts that gives the value. What a
plain tag says about itself is no run over anything. -/
def Element.pieces (settings : Settings) (indentation : String) (element : Element) :
    List (String × Run String) :=
  (if element.isQualified then []
    else ("tagName", pure (Text.quoteAttribute element.identifier)) ::
      if element.selfClosing then [("selfClosingTag", pure "true")] else []) ++
  ((element.props.filter fun prop => !Control.isReserved prop.1).map fun prop =>
    (if element.isQualified || isMeta prop.1 then prop.1 else "attributes." ++ prop.1,
      settings.renderNode prop.2 indentation)) ++
  ((element.children.filterMap Node.path?).eraseDups.filterMap fun path =>
    (Children.lastWith? element.children path).map fun child =>
      (path, settings.renderNode child indentation)) ++
  if (Children.content element.children).isEmpty then []
  else
    [((readable (element.prop? Control.children.name)).getD "content",
      settings.renderSiblings (Children.content element.children) indentation)]

/-- A block in which texts are assigned to names. -/
def writtenBlock (indentation prototype : String) (assigned : List (String × String)) : String :=
  prototype ++ " \x7b\n" ++
    String.join (assigned.map fun pair =>
      indentation ++ indentStep ++ pair.1 ++ " = " ++ pair.2 ++ "\n") ++
    indentation ++ "\x7d"

/-- The control properties that an element asks for can be read: the paths of its children, and the
name of its content when there is any. -/
structure Element.ControlsReadable (element : Element) : Prop where
  paths : ∀ child ∈ element.children, ¬ Unreadable (child.payload? .path)
  content : (∃ child ∈ element.children, child.payload? .path = none) →
    ¬ Unreadable (element.prop? Control.children.name)

/-- What is known of a piece: its name, and the journal and the outline of the part that it is. -/
structure Piece where
  name : String
  steps : List Step
  outline : Outline

/-- A piece, rendered on a line with the indentation given. -/
def Piece.run (limit : Option Nat) (indentation : String) (piece : Piece) : String × Run String :=
  (piece.name, follow limit piece.steps (piece.outline.value.print indentation))

/-- The piece that is the content of an element, when it has any. -/
def Element.contentSources (element : Element) : List Piece :=
  element.contentLabel?.toList.map fun label =>
    ⟨label, documentJournal (Children.content element.children),
      Siblings.outline (Siblings.significant (Children.content element.children))⟩

/-- The pieces of an element, each as it is at the outermost level. -/
def Element.sources (element : Element) : List Piece :=
  (element.tagOutline.map fun pair => ⟨pair.1, [], pair.2⟩) ++
  (element.assignedProps.map fun pair => ⟨pair.1, pair.2.journal 0, pair.2.outline⟩) ++
  ((Children.routed element.children).map fun pair =>
    ⟨pair.1, pair.2.journal 0, pair.2.outline⟩) ++
  element.contentSources

namespace Element

variable (element : Element)

theorem map_run_tagOutline (limit : Option Nat) (indentation : String) :
    ((element.tagOutline.map fun pair => (⟨pair.1, [], pair.2⟩ : Piece)).map
        (Piece.run limit indentation)) =
      if element.isQualified then []
      else ("tagName", pure (Text.quoteAttribute element.identifier)) ::
        if element.selfClosing then [("selfClosingTag", pure "true")] else [] := by
  unfold tagOutline tagProps
  split
  · rfl
  · split <;> rfl

theorem map_run_routed (settings : Settings) (indentation : String) :
    ((Children.routed element.children).map fun pair =>
        (⟨pair.1, pair.2.journal 0, pair.2.outline⟩ : Piece)).map
        (Piece.run settings.maxDepth indentation) =
      (element.children.filterMap Node.path?).eraseDups.filterMap fun path =>
        (Children.lastWith? element.children path).map fun child =>
          (path, settings.renderNode child indentation) := by
  rw [Children.routed_eq, List.map_filterMap, List.map_filterMap]
  refine List.filterMap_congr fun path _ => ?_
  rw [Option.map_map, Option.map_map]
  refine congrArg (Option.map · _) (funext fun child => ?_)
  exact congrArg (Prod.mk path) (renderNode_eq_follow settings child indentation).symm

/-- The pieces are rendered as their journals and outlines say. -/
theorem pieces_eq (settings : Settings) (indentation : String) :
    element.pieces settings indentation =
      element.sources.map (Piece.run settings.maxDepth indentation) := by
  have props : ((element.assignedProps.map fun pair =>
      (⟨pair.1, pair.2.journal 0, pair.2.outline⟩ : Piece)).map
        (Piece.run settings.maxDepth indentation)) =
      (element.props.filter fun prop => !Control.isReserved prop.1).map fun prop =>
        (if element.isQualified || isMeta prop.1 then prop.1 else "attributes." ++ prop.1,
          settings.renderNode prop.2 indentation) := by
    rw [assignedProps, List.map_map, List.map_map]
    refine List.map_congr_left fun prop _ => ?_
    exact congrArg (Prod.mk _) (renderNode_eq_follow settings prop.2 indentation).symm
  rw [sources, List.map_append, List.map_append, List.map_append, map_run_tagOutline, props,
    map_run_routed, pieces, contentSources, contentLabel?]
  refine congrArg _ ?_
  split
  · rfl
  · rw [renderSiblings_eq_follow]
    rfl

theorem outline_eq_sources :
    element.outline =
      .block element.prototype (element.sources.map fun piece => (piece.name, piece.outline)) := by
  rw [outline_eq, sources, List.map_append, List.map_append, List.map_append, List.map_map,
    List.map_map, List.map_map, assignedContent, contentSources, List.map_map]
  refine congrArg _ (congrArg₂ _ (congrArg₂ _ (congrArg₂ _ ?_ rfl) rfl) rfl)
  exact (List.map_id _).symm

/-- An element is not too deep, and all its steps pass, when the control properties that it asks for
can be read and the steps of each piece pass with one level less to go. -/
theorem passes_journal_iff {limit : Option Nat} :
    (∀ step ∈ element.journal 0, step.Passes (limit.map (· + 1))) ↔
      element.ControlsReadable ∧ ∀ piece ∈ element.sources, ∀ step ∈ piece.steps,
        step.Passes limit := by
  have entered : (Step.enter 1).Passes (limit.map (· + 1)) := by
    cases limit with
    | none => rfl
    | some limit =>
      rw [Step.Passes, Option.map_some, checkLevel_of_le (Nat.le_add_left 1 limit)]
      rfl
  have deeper (pairs : List (String × Node)) :
      (∀ pair ∈ pairs, ∀ step ∈ pair.2.journal (0 + 1), step.Passes (limit.map (· + 1))) ↔
        ∀ pair ∈ pairs, ∀ step ∈ pair.2.journal 0, step.Passes limit := by
    simp only [Node.journal_succ, passes_map_deeper_iff]
  have contents : (∀ step ∈ contentSteps element (Siblings.journal (0 + 1)
      (Siblings.significant (Children.content element.children))),
        step.Passes (limit.map (· + 1))) ↔
      ((Children.content element.children).isEmpty = false →
        ¬ Unreadable (element.prop? Control.children.name)) ∧
        ∀ piece ∈ element.contentSources, ∀ step ∈ piece.steps, step.Passes limit := by
    unfold contentSteps contentSources contentLabel?
    cases empty : (Children.content element.children).isEmpty with
    | true =>
      exact iff_of_true (List.forall_mem_nil _)
        ⟨fun some => Bool.noConfusion some, List.forall_mem_nil _⟩
    | false =>
      rw [if_neg Bool.false_ne_true, if_neg Bool.false_ne_true, List.forall_mem_append,
        passes_payloadSteps_iff, Siblings.journal_succ, passes_map_deeper_iff,
        Option.toList_some, List.map_singleton, List.forall_mem_singleton]
      exact and_congr_left fun _ => ⟨fun readable _ => readable, fun readable => readable rfl⟩
  rw [journal_eq, sources]
  simp only [List.forall_mem_append, List.forall_mem_flatMap, List.forall_mem_singleton,
    List.forall_mem_map, passes_classifySteps_iff, deeper, contents,
    Children.content_isEmpty_eq_false_iff]
  constructor
  · rintro ⟨⟨⟨⟨-, paths⟩, props⟩, routes⟩, label, content⟩
    exact ⟨⟨paths, label⟩, ⟨⟨fun _ _ => List.forall_mem_nil _, props⟩, routes⟩, content⟩
  · rintro ⟨⟨paths, label⟩, ⟨⟨-, props⟩, routes⟩, content⟩
    exact ⟨⟨⟨⟨entered, paths⟩, props⟩, routes⟩, label, content⟩

end Element

/-! ### The text of a block -/

theorem printAssignments_eq_join (indentation : String) (assignments : List (String × Outline)) :
    printAssignments indentation (outlinedValues assignments) =
      String.join (assignments.map fun pair =>
        indentation ++ pair.1 ++ " = " ++ pair.2.value.print indentation ++ "\n") := by
  induction assignments with
  | nil => rfl
  | cons head rest inductionHypothesis =>
    rw [outlinedValues, printAssignments, inductionHypothesis, List.map_cons, String.join_cons]

theorem Outline.print_block (indentation prototype : String)
    (assignments : List (String × Outline)) :
    (Outline.block prototype assignments).value.print indentation =
      writtenBlock indentation prototype (assignments.map fun pair =>
        (pair.1, pair.2.value.print (indentation ++ indentStep))) := by
  rw [Outline.value, Value.print, printAssignments_eq_join, writtenBlock, List.map_map]
  rfl

theorem print_block (indentation prototype : String) (pieces : List Piece) :
    (Outline.block prototype (pieces.map fun piece => (piece.name, piece.outline))).value.print
        indentation =
      writtenBlock indentation prototype (pieces.map fun piece =>
        (piece.name, piece.outline.value.print (indentation ++ indentStep))) := by
  rw [Outline.print_block, List.map_map]
  rfl

/-- Pieces render to texts when their steps pass, and the texts are those of their outlines. -/
theorem forall₂_run_iff {limit : Option Nat} {indentation : String} {pieces : List Piece}
    {assigned : List (String × String)} :
    List.Forall₂ (BoundAlike fun run text => run.result = .ok text)
        (pieces.map (Piece.run limit indentation)) assigned ↔
      (∀ piece ∈ pieces, ∀ step ∈ piece.steps, step.Passes limit) ∧
        assigned = pieces.map fun piece => (piece.name, piece.outline.value.print indentation) := by
  induction pieces generalizing assigned with
  | nil => exact List.forall₂_nil_left_iff.trans (and_iff_right nofun).symm
  | cons piece rest inductionHypothesis =>
    rw [List.map_cons, List.forall₂_cons_left_iff, List.forall_mem_cons, List.map_cons]
    constructor
    · rintro ⟨⟨name, text⟩, others, ⟨rfl, renders⟩, alike, rfl⟩
      obtain ⟨passes, rfl⟩ := follow_eq_ok_iff.mp renders
      obtain ⟨otherPasses, rfl⟩ := inductionHypothesis.mp alike
      exact ⟨⟨passes, otherPasses⟩, rfl⟩
    · rintro ⟨⟨passes, otherPasses⟩, rfl⟩
      exact ⟨_, _, ⟨rfl, follow_eq_ok_iff.mpr ⟨passes, rfl⟩⟩,
        inductionHypothesis.mpr ⟨otherPasses, rfl⟩, rfl⟩

/-- An element renders when the control properties that it asks for can be read and each of its
pieces renders, one step further in and with one level less to go, and then it is written as the
block of what the pieces render to. A limit of zero lets no element pass, so every other limit, and
none, is covered. -/
theorem renderElement_eq_ok_iff (base other : String) (limit : Option Nat) (element : Element)
    (indentation text : String) :
    (Settings.renderElement ⟨base, limit.map (· + 1)⟩ element indentation).result = .ok text ↔
      element.ControlsReadable ∧
        ∃ assigned : List (String × String),
          List.Forall₂ (BoundAlike fun run value => run.result = .ok value)
              (element.pieces ⟨other, limit⟩ (indentation ++ indentStep)) assigned ∧
            text = writtenBlock indentation
              (if element.isQualified then element.identifier else "Neos.Fusion:Tag") assigned := by
  have pieces := element.pieces_eq ⟨other, limit⟩ (indentation ++ indentStep)
  rw [renderElement_eq_follow, follow_eq_ok_iff, element.passes_journal_iff, pieces,
    Node.outline_element, element.outline_eq_sources, print_block]
  simp only [forall₂_run_iff]
  constructor
  · rintro ⟨⟨readable, passes⟩, rfl⟩
    exact ⟨readable, _, ⟨passes, rfl⟩, rfl⟩
  · rintro ⟨readable, _, ⟨passes, rfl⟩, rfl⟩
    exact ⟨⟨readable, passes⟩, rfl⟩

end MarkupBlocks
