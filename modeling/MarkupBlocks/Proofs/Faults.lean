/-
When rendering fails, and with which fault.

Without a limit only the payload of a control property can be at fault, and only where it is
asked for: a path wherever a child of a reachable element carries one, the name of the content
when a reachable element has any content, a key when the node is one of several siblings. The
faults of a tree are listed in the order in which the work comes upon them, and the run ends in
the first. For an element that order is: the paths of its children from left to right, its
properties, its routed children, the name of its content, its content; among several siblings
the key of each comes before the sibling itself.
-/

import Mathlib.Data.List.Basic
import MarkupBlocks.Proofs.Journal

namespace MarkupBlocks

/-! ### Faults in their order -/

/-- The fault of a payload that is not a quoted value. -/
def payloadFaults (control : Control) : Option Node → List Fault
  | none => []
  | some node =>
    match node.literal? with
    | some _ => []
    | none => [.payload control node.kind.name]

/-- The faults of the paths that children carry. -/
def pathFaults (children : List Node) : List Fault :=
  children.flatMap fun child => payloadFaults .path (child.payload? .path)

/-- The fault of the name of the content, which matters when there is any. -/
def Element.nameFaults (element : Element) : List Fault :=
  if (Children.content element.children).isEmpty then []
  else payloadFaults .children (element.prop? Control.children.name)

/-- The fault of the key of one of several siblings. -/
def keyFaults (siblings : List Node) (node : Node) : List Fault :=
  if 2 ≤ siblings.length then payloadFaults .key (node.payload? .key) else []

/-- The faults of a node. -/
def Node.faults : Node → List Fault
  | .leaf _ => []
  | .element root =>
    pathFaults root.children ++
      (root.assignedProps.attach.flatMap fun pair => pair.1.2.faults) ++
      ((Children.routed root.children).attach.flatMap fun pair => pair.1.2.faults) ++
      root.nameFaults ++
      ((Siblings.significant (Children.content root.children)).attach.flatMap fun node =>
        keyFaults (Siblings.significant (Children.content root.children)) node.1 ++ node.1.faults)
termination_by node => node.size
decreasing_by
  · have smaller := Element.size_lt_of_mem_parts (Element.mem_parts_of_assigned pair.2)
    simpa only [Node.size] using smaller
  · have smaller := Element.size_lt_of_mem_parts (Element.mem_parts_of_routed pair.2)
    simpa only [Node.size] using smaller
  · have smaller := Element.size_lt_of_mem_parts (root.mem_parts_of_content node.2)
    simpa only [Node.size] using smaller

/-- The faults of siblings that all mean something. -/
def Siblings.faults (nodes : List Node) : List Fault :=
  nodes.flatMap fun node => keyFaults nodes node ++ node.faults

/-- The faults of a document. -/
def documentFaults (nodes : List Node) : List Fault :=
  Siblings.faults (Siblings.significant nodes)

theorem Node.faults_leaf (content : Leaf) : (Node.leaf content).faults = [] := by
  rw [Node.faults]

theorem Node.faults_element (element : Element) :
    (Node.element element).faults =
      pathFaults element.children ++
        (element.assignedProps.flatMap fun pair => pair.2.faults) ++
        ((Children.routed element.children).flatMap fun pair => pair.2.faults) ++
        element.nameFaults ++
        Siblings.faults (Siblings.significant (Children.content element.children)) := by
  rw [Node.faults, Siblings.faults]
  simp only [List.flatMap_subtype, List.unattach_attach]

/-! ### The journal comes upon the faults in their order -/

/-- The fault that a step comes upon. -/
def Step.fault? : Step → Option Fault
  | .fault found => some found
  | .enter _ | .event _ => none

/-- Without a limit a run ends in the first fault that its journal comes upon. -/
theorem follow_none_fails_iff {Result : Type} (steps : List Step) (value : Result)
    (fault : Fault) :
    (follow none steps value).result = .error fault ↔
      (steps.filterMap Step.fault?).head? = some fault := by
  induction steps with
  | nil => exact ⟨nofun, nofun⟩
  | cons step rest inductionHypothesis =>
    cases step with
    | enter level => exact inductionHypothesis
    | event event => exact inductionHypothesis
    | fault first =>
      refine ⟨fun ends => ?_, fun heads => ?_⟩
      · rw [Except.error.inj ends]
        rfl
      · rw [← Option.some.inj heads]
        rfl

theorem faults_payloadSteps (control : Control) (payload : Option Node) :
    (payloadSteps control payload).filterMap Step.fault? = payloadFaults control payload := by
  cases payload with
  | none => rfl
  | some node =>
    rw [payloadSteps, payloadFaults]
    cases node.literal? with
    | none => rfl
    | some text => rfl

theorem faults_pathSteps (seen : List String) (children : List Node) :
    (pathSteps seen children).filterMap Step.fault? = pathFaults children := by
  induction children generalizing seen with
  | nil => rfl
  | cons child rest inductionHypothesis =>
    rw [pathSteps, List.filterMap_append, faults_payloadSteps, pathFaults, List.flatMap_cons]
    refine congrArg _ ?_
    cases child.path? with
    | none => exact inductionHypothesis seen
    | some path =>
      rw [List.filterMap_append, inductionHypothesis (path :: seen)]
      split
      · rfl
      · rfl

theorem faults_classifySteps (children : List Node) :
    (classifySteps children).filterMap Step.fault? = pathFaults children := by
  rw [classifySteps, List.filterMap_append, faults_pathSteps]
  exact List.append_nil _

theorem faults_slotSteps (node : Node) (position : Nat) (steps : List Step) :
    (slotSteps node position steps).filterMap Step.fault? =
      payloadFaults .key (node.payload? .key) ++ steps.filterMap Step.fault? := by
  rw [slotSteps, List.filterMap_append, List.filterMap_append, faults_payloadSteps]
  exact List.append_nil _

/-- Content that is not there has no faults, whatever was asked of it. -/
theorem faults_contentSteps {element : Element} {steps : List Step}
    (faults : steps.filterMap Step.fault? =
      Siblings.faults (Siblings.significant (Children.content element.children))) :
    (contentSteps element steps).filterMap Step.fault? =
      element.nameFaults ++
        Siblings.faults (Siblings.significant (Children.content element.children)) := by
  unfold contentSteps Element.nameFaults
  split
  · next none =>
    rw [List.isEmpty_iff.mp none]
    rfl
  · rw [List.filterMap_append, faults_payloadSteps, faults]

theorem Siblings.faults_journal {depth : Nat} {nodes : List Node}
    (each : ∀ node ∈ nodes, (node.journal depth).filterMap Step.fault? = node.faults) :
    (Siblings.journal depth nodes).filterMap Step.fault? = Siblings.faults nodes := by
  match nodes with
  | [] =>
    rw [Siblings.journal_nil]
    rfl
  | [node] =>
    rw [Siblings.journal_singleton, each node List.mem_cons_self, Siblings.faults,
      List.flatMap_singleton]
    rfl
  | first :: second :: rest =>
    have several : 2 ≤ (first :: second :: rest).length := Nat.le_add_left 2 rest.length
    have slot (node : Node) (member : node ∈ first :: second :: rest) :
        payloadFaults .key (node.payload? .key) ++ (node.journal depth).filterMap Step.fault? =
          keyFaults (first :: second :: rest) node ++ node.faults := by
      rw [each node member, keyFaults, if_pos several]
    rw [Siblings.journal_of_two_le depth several, List.filterMap_flatMap]
    simp only [faults_slotSteps]
    rw [Siblings.faults, ← List.flatMap_congr slot]
    conv_rhs => rw [← List.zipIdx_map_fst 1 (first :: second :: rest), List.flatMap_map]

/-- At every depth the journal of a node comes upon the faults of the node. -/
theorem Node.faults_journal (depth : Nat) (node : Node) :
    (node.journal depth).filterMap Step.fault? = node.faults := by
  induction node using Node.induction generalizing depth with
  | leaf content =>
    rw [Node.journal_leaf, Node.faults_leaf]
    rfl
  | element element inductionHypothesis =>
    have props (pair : String × Node) (member : pair ∈ element.assignedProps) :=
      inductionHypothesis pair.2 (Element.mem_parts_of_assigned member) (depth + 1)
    have routes (pair : String × Node) (member : pair ∈ Children.routed element.children) :=
      inductionHypothesis pair.2 (Element.mem_parts_of_routed member) (depth + 1)
    have contents := Siblings.faults_journal fun part member =>
      inductionHypothesis part (element.mem_parts_of_content member) (depth + 1)
    rw [Node.journal_element, Element.journal_eq, Node.faults_element]
    simp only [List.filterMap_append, List.filterMap_flatMap]
    rw [List.flatMap_congr props, List.flatMap_congr routes, faults_classifySteps,
      faults_contentSteps contents]
    simp only [List.append_assoc]
    rfl

/-! ### Where the faults are -/

/-- A control property is set to something that is not a quoted value. -/
def Unreadable (payload : Option Node) : Prop :=
  ∃ node, payload = some node ∧ node.literal? = none

instance (payload : Option Node) : Decidable (Unreadable payload) :=
  decidable_of_iff (∃ node ∈ payload, node.literal? = none) Iff.rfl

theorem not_unreadable_none : ¬ Unreadable none := by
  rintro ⟨node, present, -⟩
  exact absurd present.symm (Option.some_ne_none node)

theorem not_unreadable_of_literal? {node : Node} {text : String}
    (literal : node.literal? = some text) : ¬ Unreadable (some node) := by
  rintro ⟨other, same, unreadable⟩
  rw [← Option.some.inj same, literal] at unreadable
  exact absurd unreadable (Option.some_ne_none text)

theorem exists_payloadFault_iff {control : Control} {payload : Option Node} :
    (∃ fault, fault ∈ payloadFaults control payload) ↔ Unreadable payload := by
  cases payload with
  | none => exact ⟨fun ⟨_, member⟩ => absurd member List.not_mem_nil, nofun⟩
  | some node =>
    rw [payloadFaults]
    cases found : node.literal? with
    | none => exact ⟨fun _ => ⟨node, rfl, found⟩, fun _ => ⟨_, List.mem_singleton_self _⟩⟩
    | some text =>
      refine iff_of_false ?_ (not_unreadable_of_literal? found)
      rintro ⟨fault, member⟩
      exact absurd member List.not_mem_nil

theorem exists_fault_append_iff {left right : List Fault} :
    (∃ fault, fault ∈ left ++ right) ↔
      (∃ fault, fault ∈ left) ∨ ∃ fault, fault ∈ right := by
  simp only [List.mem_append, exists_or]

theorem exists_fault_flatMap_iff {Source : Type} {items : List Source}
    {faults : Source → List Fault} :
    (∃ fault, fault ∈ items.flatMap faults) ↔ ∃ item ∈ items, ∃ fault, fault ∈ faults item := by
  simp only [List.mem_flatMap]
  constructor
  · rintro ⟨fault, item, member, present⟩
    exact ⟨item, member, fault, present⟩
  · rintro ⟨item, member, fault, present⟩
    exact ⟨fault, item, member, present⟩

/-- Several siblings mean something, and the key of one of them cannot be read. -/
def UnreadableKey (nodes : List Node) : Prop :=
  2 ≤ (Siblings.significant nodes).length ∧
    ∃ node ∈ Siblings.significant nodes, Unreadable (node.payload? .key)

/-- An element is itself at fault: the path of a child cannot be read, or the name of content
that is there, or a key within the content. Layout counts as content here. -/
inductive Element.Defective (element : Element) : Prop
  | path {child : Node} (present : child ∈ element.children)
      (unreadable : Unreadable (child.payload? .path))
  | content {child : Node} (present : child ∈ element.children)
      (unrouted : child.payload? .path = none)
      (unreadable : Unreadable (element.prop? Control.children.name))
  | key (unreadable : UnreadableKey (Children.content element.children))

theorem exists_nameFault_iff {element : Element} :
    (∃ fault, fault ∈ element.nameFaults) ↔
      Children.content element.children ≠ [] ∧
        Unreadable (element.prop? Control.children.name) := by
  unfold Element.nameFaults
  by_cases empty : Children.content element.children = []
  · rw [empty]
    exact ⟨fun ⟨_, member⟩ => absurd member List.not_mem_nil, fun both => absurd rfl both.1⟩
  · rw [if_neg fun isEmpty => empty (List.isEmpty_iff.mp isEmpty), exists_payloadFault_iff,
      and_iff_right empty]

theorem exists_keyFault_iff {siblings : List Node} {node : Node} :
    (∃ fault, fault ∈ keyFaults siblings node) ↔
      2 ≤ siblings.length ∧ Unreadable (node.payload? .key) := by
  unfold keyFaults
  split
  · next several => rw [exists_payloadFault_iff, and_iff_right several]
  · next few =>
    exact ⟨fun ⟨_, member⟩ => absurd member List.not_mem_nil, fun both => absurd both.1 few⟩

/-- Faults of siblings are those of their keys and their own. -/
theorem exists_siblingFault_iff {nodes : List Node} :
    (∃ fault, fault ∈ Siblings.faults nodes) ↔
      (2 ≤ nodes.length ∧ ∃ node ∈ nodes, Unreadable (node.payload? .key)) ∨
        ∃ node ∈ nodes, ∃ fault, fault ∈ node.faults := by
  rw [Siblings.faults, exists_fault_flatMap_iff]
  simp only [exists_fault_append_iff, exists_keyFault_iff, and_or_left, exists_or]
  refine or_congr_left ⟨?_, ?_⟩
  · rintro ⟨node, member, several, unreadable⟩
    exact ⟨several, node, member, unreadable⟩
  · rintro ⟨several, node, member, unreadable⟩
    exact ⟨node, member, several, unreadable⟩

/-- An element has a fault when it is at fault itself or one of its parts has one. -/
theorem exists_elementFault_iff {element : Element} :
    (∃ fault, fault ∈ (Node.element element).faults) ↔
      element.Defective ∨ ∃ part ∈ element.parts, ∃ fault, fault ∈ part.faults := by
  rw [Node.faults_element, pathFaults]
  simp only [exists_fault_append_iff, exists_fault_flatMap_iff, exists_payloadFault_iff,
    exists_nameFault_iff, exists_siblingFault_iff]
  constructor
  · rintro ((((⟨child, present, unreadable⟩ | ⟨pair, assigned, faulty⟩) | ⟨pair, routed, faulty⟩) |
      ⟨nonempty, unreadable⟩) | key | ⟨node, member, faulty⟩)
    · exact Or.inl (.path present unreadable)
    · exact Or.inr ⟨pair.2, Element.mem_parts_of_assigned assigned, faulty⟩
    · exact Or.inr ⟨pair.2, Element.mem_parts_of_routed routed, faulty⟩
    · obtain ⟨child, member⟩ := List.exists_mem_of_ne_nil _ nonempty
      obtain ⟨present, unrouted⟩ := Children.mem_content_iff.mp member
      exact Or.inl (.content present unrouted unreadable)
    · exact Or.inl (.key key)
    · exact Or.inr ⟨node, element.mem_parts_of_content member, faulty⟩
  · rintro (defective | ⟨part, member, faulty⟩)
    · cases defective with
      | path present unreadable =>
        exact Or.inl (Or.inl (Or.inl (Or.inl ⟨_, present, unreadable⟩)))
      | content present unrouted unreadable =>
        have member := Children.mem_content_iff.mpr ⟨present, unrouted⟩
        exact Or.inl (Or.inr ⟨List.ne_nil_of_mem member, unreadable⟩)
      | key unreadable => exact Or.inr (Or.inl unreadable)
    · rcases List.mem_append.mp member with member | content
      · rcases List.mem_append.mp member with prop | route
        · obtain ⟨pair, assigned, rfl⟩ := List.mem_map.mp prop
          exact Or.inl (Or.inl (Or.inl (Or.inr ⟨pair, assigned, faulty⟩)))
        · obtain ⟨pair, routed, rfl⟩ := List.mem_map.mp route
          exact Or.inl (Or.inl (Or.inr ⟨pair, routed, faulty⟩))
      · exact Or.inr (Or.inr ⟨part, content, faulty⟩)

/-! ### Faults of documents -/

/-- A document is at fault when a key of its siblings cannot be read, or when an element that is
reachable in it is at fault itself. -/
inductive DefectiveDocument (nodes : List Node) : Prop
  | key (unreadable : UnreadableKey nodes)
  | element {element : Element} (reachable : Reachable nodes (.element element))
      (defective : element.Defective)

/-- A fault within a reachable node is that of a reachable element. -/
theorem exists_defective_of_fault {nodes : List Node} {node : Node}
    (reachable : Reachable nodes node) (faulty : ∃ fault, fault ∈ node.faults) :
    ∃ element, Reachable nodes (.element element) ∧ element.Defective := by
  induction node using Node.induction with
  | leaf content =>
    rw [Node.faults_leaf] at faulty
    obtain ⟨fault, member⟩ := faulty
    exact absurd member List.not_mem_nil
  | element element inductionHypothesis =>
    rcases exists_elementFault_iff.mp faulty with defective | ⟨part, member, faulty⟩
    · exact ⟨element, reachable, defective⟩
    · exact inductionHypothesis part member
        (reachable.part (Element.mem_parts_iff.mp member)) faulty

/-- A fault of a reachable node is one of the document: the way back to the document passes from
parts to elements. -/
theorem exists_documentFault_of_reachable {nodes : List Node} {node : Node}
    (reachable : Reachable nodes node) (faulty : ∃ fault, fault ∈ node.faults) :
    ∃ fault, fault ∈ documentFaults nodes := by
  induction reachable with
  | root present survives =>
    exact exists_siblingFault_iff.mpr
      (Or.inr ⟨_, List.mem_filterMap.mpr ⟨_, present, survives⟩, faulty⟩)
  | part whole part inductionHypothesis =>
    exact inductionHypothesis
      (exists_elementFault_iff.mpr (Or.inr ⟨_, Element.mem_parts_iff.mpr part, faulty⟩))

theorem exists_documentFault_iff {nodes : List Node} :
    (∃ fault, fault ∈ documentFaults nodes) ↔ DefectiveDocument nodes := by
  constructor
  · intro faulty
    rcases exists_siblingFault_iff.mp faulty with key | ⟨node, member, faulty⟩
    · exact .key key
    · obtain ⟨source, present, survives⟩ := List.mem_filterMap.mp member
      obtain ⟨element, reachable, defective⟩ :=
        exists_defective_of_fault (.root present survives) faulty
      exact .element reachable defective
  · intro defective
    cases defective with
    | key unreadable => exact exists_siblingFault_iff.mpr (Or.inl unreadable)
    | element reachable defective =>
      exact exists_documentFault_of_reachable reachable
        (exists_elementFault_iff.mpr (Or.inl defective))

/-- Without a limit, rendering fails exactly when the document is at fault, and then with the
first of its faults. -/
theorem render_fails_iff_defective (indentation : String) (nodes : List Node) :
    ((∃ fault, (Settings.render ⟨indentation, none⟩ nodes).result = .error fault) ↔
        DefectiveDocument nodes) ∧
      ∀ fault, (Settings.render ⟨indentation, none⟩ nodes).result = .error fault ↔
        (documentFaults nodes).head? = some fault := by
  have first (fault : Fault) :
      (Settings.render ⟨indentation, none⟩ nodes).result = .error fault ↔
        (documentFaults nodes).head? = some fault := by
    have journal : (documentJournal nodes).filterMap Step.fault? = documentFaults nodes :=
      Siblings.faults_journal fun node _ => node.faults_journal 0
    rw [render_eq_follow, ← journal]
    exact follow_none_fails_iff _ _ fault
  refine ⟨?_, first⟩
  rw [← exists_documentFault_iff]
  constructor
  · rintro ⟨fault, fails⟩
    exact ⟨fault, List.mem_of_head? ((first fault).mp fails)⟩
  · rintro ⟨fault, member⟩
    exact ⟨_, (first _).mpr (List.head?_eq_some_head (List.ne_nil_of_mem member))⟩

end MarkupBlocks
