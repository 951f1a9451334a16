/-
The events of a run account for its text.

A run that ends in a text has reported all the events of its journal, and these are the events of
the transcript: the journal and the transcript are put together from the same parts in the same
order. So an element is reported once for each time that it is written, in the order of the headers,
with its repeated paths just before it. A slot is reported once for each place in a list of several
siblings, between the events of its own node and those of the next sibling: what is reported for a
part of a document stands in one piece among the events, and is what the part reports on its own.
-/

import Mathlib.Data.List.Infix
import Mathlib.Data.List.Perm.Basic
import MarkupBlocks.Proofs.Transcript

namespace MarkupBlocks

/-! ### Runs that end in a text -/

/-- The event that a step reports. -/
def Step.event? : Step → Option Event
  | .event reported => some reported
  | .enter _ | .fault _ => none

/-- The events that a journal reports when nothing stops it. -/
def reported (steps : List Step) : List Event :=
  steps.filterMap Step.event?

section Follow

variable {Result : Type} {limit : Option Nat}

/-- A run that every step lets pass reports every event of its journal. -/
theorem events_follow {steps : List Step} (passes : ∀ step ∈ steps, step.Passes limit)
    (value : Result) : (follow limit steps value).events = reported steps := by
  induction steps with
  | nil => rfl
  | cons step rest inductionHypothesis =>
    obtain ⟨first, later⟩ := List.forall_mem_cons.mp passes
    cases step with
    | enter level =>
      have silent : (checkLevel limit level).events = [] := by
        unfold checkLevel
        split
        · rfl
        · split <;> rfl
      rw [follow, Traced.bind_of_ok first, silent, inductionHypothesis later]
      rfl
    | event event => exact congrArg (event :: ·) (inductionHypothesis later)
    | fault fault => exact absurd first id

/-- What passes one level deeper passes in the first place. -/
theorem Step.passes_of_deeper {step : Step} (passes : step.deeper.Passes limit) :
    step.Passes limit := by
  cases step with
  | enter level =>
    cases limit with
    | none => rfl
    | some limit =>
      rcases Nat.lt_or_ge limit level with beyond | within
      · rw [deeper, Passes, checkLevel_of_lt (Nat.lt_succ_of_lt beyond)] at passes
        simp only [Traced.result_fail, reduceCtorEq] at passes
      · rw [Passes, checkLevel_of_le within]
        rfl
  | event event => trivial
  | fault fault => exact passes

theorem Node.passes_journal_zero {node : Node} {depth : Nat}
    (passes : ∀ step ∈ node.journal depth, step.Passes limit) :
    ∀ step ∈ node.journal 0, step.Passes limit := by
  induction depth with
  | zero => exact passes
  | succ depth inductionHypothesis =>
    rw [Node.journal_succ, List.forall_mem_map] at passes
    exact inductionHypothesis fun step member => Step.passes_of_deeper (passes step member)

end Follow

/-! ### Events of the single steps -/

theorem reported_append (left right : List Step) :
    reported (left ++ right) = reported left ++ reported right :=
  List.filterMap_append

theorem reported_flatMap {Source : Type} (items : List Source) (steps : Source → List Step) :
    reported (items.flatMap steps) = items.flatMap fun item => reported (steps item) :=
  List.filterMap_flatMap

theorem reported_payloadSteps (control : Control) (payload : Option Node) :
    reported (payloadSteps control payload) = [] := by
  unfold payloadSteps
  split
  · rfl
  · split <;> rfl

theorem reported_slotSteps (node : Node) (position : Nat) (steps : List Step) :
    reported (slotSteps node position steps) =
      reported steps ++ [.slot (slotLabel node position) node.kind] := by
  rw [slotSteps, reported_append, reported_append, reported_payloadSteps]
  rfl

/-- The paths that were read before are the paths of the children before. -/
theorem pathSteps_append (seen : List String) (left right : List Node) :
    pathSteps seen (left ++ right) =
      pathSteps seen left ++ pathSteps ((left.filterMap Node.path?).reverse ++ seen) right := by
  induction left generalizing seen with
  | nil => rfl
  | cons child rest inductionHypothesis =>
    rw [List.cons_append, pathSteps, pathSteps, List.append_assoc]
    refine congrArg _ ?_
    cases carried : child.path? with
    | none =>
      rw [List.filterMap_cons_none carried]
      exact inductionHypothesis seen
    | some path =>
      rw [List.filterMap_cons_some carried, List.reverse_cons]
      simp only [inductionHypothesis (path :: seen), List.append_assoc, List.singleton_append]

theorem Children.repeatedPaths_concat (children : List Node) (last : Node) :
    repeatedPaths (children ++ [last]) = repeatedPaths children ++
      (last.path?.filter (· ∈ children.filterMap Node.path?)).toList := by
  unfold repeatedPaths
  rw [List.zipIdx_append, List.filterMap_append]
  refine congrArg₂ _ (List.filterMap_congr fun child member => ?_) ?_
  · -- What stands before a child is the same as long as children are added after it.
    have within : child.2 ≤ children.length :=
      Nat.le_of_lt (Nat.zero_add children.length ▸ (List.mem_zipIdx member).2.1)
    rw [List.take_append_of_le_length within]
  · rw [Nat.zero_add, List.zipIdx_singleton, List.filterMap_cons, List.take_left]
    cases last.path?.filter (· ∈ children.filterMap Node.path?) <;> rfl

/-- The events of the paths are the repeated ones. -/
theorem reported_pathSteps (children : List Node) :
    reported (pathSteps [] children) =
      (Children.repeatedPaths children).map Event.duplicatePath := by
  induction children using List.reverseRecOn with
  | nil => rfl
  | append_singleton rest last inductionHypothesis =>
    rw [pathSteps_append, reported_append, inductionHypothesis, Children.repeatedPaths_concat,
      List.map_append]
    refine congrArg _ ?_
    rw [pathSteps, reported_append, reported_payloadSteps, List.nil_append, List.append_nil]
    cases last.path? with
    | none => rfl
    | some path =>
      rw [Option.filter_some]
      simp only [List.mem_reverse, decide_eq_true_eq]
      split <;> rfl

theorem reported_classifySteps (element : Element) :
    reported (classifySteps element.children) = element.reports := by
  rw [classifySteps, reported_append, reported_pathSteps]
  rfl

theorem reported_contentSteps (element : Element) (depth : Nat) :
    reported (contentSteps element
        (Siblings.journal depth (Siblings.significant (Children.content element.children)))) =
      reported (Siblings.journal depth
        (Siblings.significant (Children.content element.children))) := by
  unfold contentSteps
  split
  · next none =>
    rw [List.isEmpty_iff.mp none]
    show _ = reported (Siblings.journal depth [])
    rw [Siblings.journal_nil]
  · rw [reported_append, reported_payloadSteps, List.nil_append]

/-! ### The sizes of the groups -/

namespace Children

theorem length_routed (children : List Node) :
    (routed children).length = (children.filterMap Node.path?).eraseDups.length := by
  rw [← names_routed, Bindings.names, List.length_map]

/-- A path that is carried is distinct from those before it or repeats one of them. -/
theorem length_repeatedPaths (children : List Node) :
    (children.filterMap Node.path?).eraseDups.length + (repeatedPaths children).length =
      (children.filterMap Node.path?).length := by
  induction children using List.reverseRecOn with
  | nil => rfl
  | append_singleton rest last inductionHypothesis =>
    rw [repeatedPaths_concat, List.filterMap_append, List.length_append, List.length_append]
    cases carried : last.path? with
    | none =>
      rw [List.filterMap_cons_none carried, List.filterMap_nil, List.append_nil, Option.filter_none]
      exact inductionHypothesis
    | some path =>
      rw [List.filterMap_cons_some carried, List.filterMap_nil, List.eraseDups_append,
        Option.filter_some, List.length_append, ← inductionHypothesis]
      generalize rest.filterMap Node.path? = earlier
      by_cases before : path ∈ earlier
      · have known : [path].removeAll earlier = [] := by simp [List.removeAll, before]
        rw [known, List.eraseDups_nil, if_pos (decide_eq_true before)]
        exact (Nat.add_assoc _ _ 1).symm
      · have fresh : [path].removeAll earlier = [path] := by simp [List.removeAll, before]
        rw [fresh, List.eraseDups_cons, if_neg (mt of_decide_eq_true before)]
        exact Nat.add_right_comm _ 1 _

/-- A child whose path can be read carries a path or is content. -/
theorem length_content {children : List Node}
    (readable : ∀ child ∈ children, ¬ Unreadable (child.payload? .path)) :
    (children.filterMap Node.path?).length + (content children).length = children.length := by
  induction children with
  | nil => rfl
  | cons child rest inductionHypothesis =>
    obtain ⟨first, others⟩ := List.forall_mem_cons.mp readable
    have later := inductionHypothesis others
    unfold content at later ⊢
    cases payload : child.payload? .path with
    | none =>
      have carried : child.path? = none := by rw [Node.path?, payload, readable_none]
      rw [List.filterMap_cons_none carried, List.filter_cons_of_pos (by rw [payload]; rfl),
        List.length_cons, List.length_cons, ← later, Nat.add_assoc]
    | some node =>
      obtain ⟨path, literal⟩ : ∃ path, node.literal? = some path :=
        Option.ne_none_iff_exists'.mp fun unread => first ⟨node, payload, unread⟩
      have carried : child.path? = some path := by
        rw [Node.path?, payload, readable_some, literal]
      rw [List.filterMap_cons_some carried,
        List.filter_cons_of_neg (by rw [payload]; exact Bool.false_ne_true), List.length_cons,
        List.length_cons, ← later, Nat.add_right_comm]

end Children

/-! ### The events of the transcript are those of the journal -/

theorem Siblings.events_transcript_of_forall {depth : Nat} {nodes : List Node}
    (each : ∀ node ∈ nodes, ∀ indentation,
      (node.transcript indentation).flatMap Entry.events = reported (node.journal depth))
    (indentation : String) :
    (Siblings.transcript indentation nodes).flatMap Entry.events =
      reported (Siblings.journal depth nodes) := by
  match nodes with
  | [] =>
    rw [Siblings.transcript_nil, Siblings.journal_nil]
    rfl
  | [node] =>
    rw [Siblings.transcript_singleton, Siblings.journal_singleton]
    exact each node List.mem_cons_self indentation
  | first :: second :: rest =>
    have several : 2 ≤ (first :: second :: rest).length := Nat.le_add_left 2 rest.length
    rw [Siblings.flatMap_transcript_of_two_le (fun _ => rfl) indentation several,
      Siblings.journal_of_two_le depth several, reported_flatMap]
    refine List.flatMap_congr fun slot member => ?_
    rw [reported_slotSteps, each slot.1 (List.fst_mem_of_mem_zipIdx member)]
    rfl

/-- At every depth and on every line a node is reported as its journal says. -/
theorem Node.events_transcript (indentation : String) (depth : Nat) (node : Node) :
    (node.transcript indentation).flatMap Entry.events = reported (node.journal depth) := by
  induction node using Node.induction generalizing indentation depth with
  | leaf content =>
    rw [Node.transcript_leaf, Node.journal_leaf]
    rfl
  | element element inductionHypothesis =>
    have props (pair : String × Node) (member : pair ∈ element.assignedProps) :=
      inductionHypothesis pair.2 (Element.mem_parts_of_assigned member)
        (indentation ++ indentStep) (depth + 1)
    have routes (pair : String × Node) (member : pair ∈ Children.routed element.children) :=
      inductionHypothesis pair.2 (Element.mem_parts_of_routed member)
        (indentation ++ indentStep) (depth + 1)
    have contents := Siblings.events_transcript_of_forall (fun part member indentation =>
      inductionHypothesis part (element.mem_parts_of_content member) indentation (depth + 1))
        (indentation ++ indentStep)
    rw [Node.transcript_element, Node.journal_element, Element.journal_eq,
      Element.flatMap_transcript (fun _ => rfl), List.flatMap_congr props,
      List.flatMap_congr routes, contents]
    simp only [reported_append, reported_flatMap, reported_classifySteps, reported_contentSteps]
    rfl

theorem events_transcript (indentation : String) (nodes : List Node) :
    (transcript indentation nodes).flatMap Entry.events = reported (documentJournal nodes) :=
  Siblings.events_transcript_of_forall
    (fun node _ indentation => node.events_transcript indentation 0) indentation

/-! ### Headers -/

/-- The elements that are visited in an element: itself, and those that are visited in its parts. -/
theorem Element.elements_visited (element : Element) :
    (Node.element element).visited.filterMap Node.element? =
      element :: (element.parts.flatMap Node.visited).filterMap Node.element? := by
  rw [Node.visited_element]
  rfl

theorem Siblings.elements_transcript_of_forall {nodes : List Node}
    (each : ∀ node ∈ nodes, ∀ indentation,
      (node.transcript indentation).flatMap Entry.elements =
        node.visited.filterMap Node.element?)
    (indentation : String) :
    (Siblings.transcript indentation nodes).flatMap Entry.elements =
      (nodes.flatMap Node.visited).filterMap Node.element? := by
  match nodes with
  | [] =>
    rw [Siblings.transcript_nil]
    rfl
  | [node] =>
    rw [Siblings.transcript_singleton, List.flatMap_singleton]
    exact each node List.mem_cons_self indentation
  | first :: second :: rest =>
    have several : 2 ≤ (first :: second :: rest).length := Nat.le_add_left 2 rest.length
    rw [Siblings.flatMap_transcript_of_two_le (fun _ => rfl) indentation several,
      List.filterMap_flatMap]
    conv_rhs => rw [← List.zipIdx_map_fst 1 (first :: second :: rest), List.flatMap_map]
    refine List.flatMap_congr fun slot member => ?_
    rw [each slot.1 (List.fst_mem_of_mem_zipIdx member)]
    exact List.append_nil _

/-- The headers of a written node are those of the elements that are visited in it, in order. -/
theorem Node.elements_transcript (indentation : String) (node : Node) :
    (node.transcript indentation).flatMap Entry.elements =
      node.visited.filterMap Node.element? := by
  induction node using Node.induction generalizing indentation with
  | leaf content =>
    rw [Node.transcript_leaf, Node.visited_leaf]
    rfl
  | element element inductionHypothesis =>
    have props (pair : String × Node) (member : pair ∈ element.assignedProps) :=
      inductionHypothesis pair.2 (Element.mem_parts_of_assigned member)
        (indentation ++ indentStep)
    have routes (pair : String × Node) (member : pair ∈ Children.routed element.children) :=
      inductionHypothesis pair.2 (Element.mem_parts_of_routed member)
        (indentation ++ indentStep)
    have contents := Siblings.elements_transcript_of_forall (fun part member =>
      inductionHypothesis part (element.mem_parts_of_content member)) (indentation ++ indentStep)
    rw [Node.transcript_element, Element.elements_visited, Element.flatMap_transcript fun _ => rfl,
      List.flatMap_congr props, List.flatMap_congr routes, contents, Element.parts]
    simp only [List.flatMap_append, List.filterMap_append, List.flatMap_map,
      List.filterMap_flatMap, List.append_assoc]
    rfl

/-- The elements that are rendered, each as often as it is. -/
def renderedElements (nodes : List Node) : List Element :=
  (visited nodes).filterMap Node.element?

/-- The elements that are rendered are those that are reachable. -/
theorem mem_renderedElements_iff {nodes : List Node} {element : Element} :
    element ∈ renderedElements nodes ↔ Reachable nodes (.element element) := by
  rw [← mem_visited_iff, renderedElements, List.mem_filterMap]
  constructor
  · rintro ⟨node, member, is⟩
    cases node with
    | leaf content => exact absurd is.symm (Option.some_ne_none element)
    | element other => rwa [← Option.some.inj is]
  · intro member
    exact ⟨_, member, rfl⟩

theorem elements_transcript (indentation : String) (nodes : List Node) :
    (transcript indentation nodes).flatMap Entry.elements = renderedElements nodes :=
  Siblings.elements_transcript_of_forall
    (fun node _ indentation => node.elements_transcript indentation) indentation

/-! ### Slots -/

/-- The slots of siblings that all mean something. Fewer than two are not written in slots. -/
def Siblings.slots (siblings : List Node) : List (String × Node) :=
  if 2 ≤ siblings.length then
    (siblings.zipIdx 1).map fun slot => (slotLabel slot.1 slot.2, slot.1)
  else []

/-- The slots of the content of an element. -/
def Element.contentSlots (element : Element) : List (String × Node) :=
  Siblings.slots (Siblings.significant (Children.content element.children))

theorem Siblings.slots_transcript_of_forall {nodes : List Node}
    (each : ∀ node ∈ nodes, ∀ indentation,
      ((node.transcript indentation).flatMap Entry.slots).Perm
        ((node.visited.filterMap Node.element?).flatMap Element.contentSlots))
    (indentation : String) :
    ((Siblings.transcript indentation nodes).flatMap Entry.slots).Perm
      (Siblings.slots nodes ++
        ((nodes.flatMap Node.visited).filterMap Node.element?).flatMap Element.contentSlots) := by
  match nodes with
  | [] =>
    rw [Siblings.transcript_nil]
    exact List.Perm.refl _
  | [node] =>
    rw [Siblings.transcript_singleton, List.flatMap_singleton]
    exact each node List.mem_cons_self indentation
  | first :: second :: rest =>
    have several : 2 ≤ (first :: second :: rest).length := Nat.le_add_left 2 rest.length
    rw [Siblings.flatMap_transcript_of_two_le (fun _ => rfl) indentation several,
      Siblings.slots, if_pos several, List.filterMap_flatMap, List.flatMap_assoc,
      List.map_eq_flatMap]
    conv_rhs =>
      rhs
      rw [← List.zipIdx_map_fst 1 (first :: second :: rest), List.flatMap_map]
    refine List.Perm.trans ?_
      ((List.flatMap_append_perm _ _ _).symm.trans List.perm_append_comm)
    exact List.Perm.flatMap_left _ fun slot member =>
      (each slot.1 (List.fst_mem_of_mem_zipIdx member) _).append_right _

/-- The slots of a written node are those of the elements that are visited in it, in some order. -/
theorem Node.slots_transcript (indentation : String) (node : Node) :
    ((node.transcript indentation).flatMap Entry.slots).Perm
      ((node.visited.filterMap Node.element?).flatMap Element.contentSlots) := by
  induction node using Node.induction generalizing indentation with
  | leaf content =>
    rw [Node.transcript_leaf, Node.visited_leaf]
    exact List.Perm.refl _
  | element element inductionHypothesis =>
    have props := List.Perm.flatMap_left element.assignedProps fun pair member =>
      inductionHypothesis pair.2 (Element.mem_parts_of_assigned member)
        (indentation ++ indentStep)
    have routes := List.Perm.flatMap_left (Children.routed element.children) fun pair member =>
      inductionHypothesis pair.2 (Element.mem_parts_of_routed member)
        (indentation ++ indentStep)
    have contents := Siblings.slots_transcript_of_forall (fun part member =>
      inductionHypothesis part (element.mem_parts_of_content member)) (indentation ++ indentStep)
    rw [Node.transcript_element, Element.elements_visited, Element.flatMap_transcript fun _ => rfl,
      List.flatMap_cons, Element.parts]
    simp only [List.flatMap_append, List.filterMap_append, List.flatMap_map, List.filterMap_flatMap,
      List.flatMap_assoc] at contents ⊢
    -- The slots of the content come after all others in the transcript.
    exact ((props.append routes).append contents).trans (List.perm_append_comm_assoc _ _ _)

/-- The lists of siblings that are rendered: the document, and the content of each element that is
rendered, as far as they mean something. -/
def renderedLists (nodes : List Node) : List (List Node) :=
  Siblings.significant nodes ::
    (renderedElements nodes).map fun element =>
      Siblings.significant (Children.content element.children)

theorem slots_transcript (indentation : String) (nodes : List Node) :
    ((transcript indentation nodes).flatMap Entry.slots).Perm
      ((renderedLists nodes).flatMap Siblings.slots) := by
  rw [renderedLists, List.flatMap_cons, List.flatMap_map]
  exact Siblings.slots_transcript_of_forall
    (fun node _ indentation => node.slots_transcript indentation) indentation

/-! ### Journals within journals -/

/-- What an item stands for stands in one piece in what all items stand for. The items need not be
of the type of what they stand for, as they are in `List.infix_flatMap_of_mem`. -/
theorem infix_flatMap {Source Target : Type} {items : List Source} {item : Source}
    (member : item ∈ items) (list : Source → List Target) : list item <:+: items.flatMap list := by
  rw [List.flatMap_def]
  exact List.infix_of_mem_flatten (List.mem_map_of_mem member)

theorem Siblings.journal_infix {nodes : List Node} {node : Node} (member : node ∈ nodes)
    (depth : Nat) : node.journal depth <:+: Siblings.journal depth nodes := by
  match nodes with
  | [single] =>
    rw [Siblings.journal_singleton, List.mem_singleton.mp member]
  | first :: second :: rest =>
    have several : 2 ≤ (first :: second :: rest).length := Nat.le_add_left 2 rest.length
    obtain ⟨slot, present, rfl⟩ : ∃ slot ∈ (first :: second :: rest).zipIdx 1, slot.1 = node := by
      rwa [← List.mem_map, List.zipIdx_map_fst]
    rw [Siblings.journal_of_two_le depth several]
    refine List.IsInfix.trans ?_ (infix_flatMap present _)
    exact List.infix_append _ _ _

theorem Element.contentJournal_infix (element : Element) (depth : Nat) :
    Siblings.journal (depth + 1) (Siblings.significant (Children.content element.children)) <:+:
      element.journal depth := by
  have within : Siblings.journal (depth + 1)
      (Siblings.significant (Children.content element.children)) <:+:
      contentSteps element (Siblings.journal (depth + 1)
        (Siblings.significant (Children.content element.children))) := by
    unfold contentSteps
    split
    · next none =>
      rw [List.isEmpty_iff.mp none]
      show Siblings.journal (depth + 1) [] <:+: _
      rw [Siblings.journal_nil]
    · exact (List.suffix_append _ _).isInfix
  rw [Element.journal_eq]
  exact within.trans (List.suffix_append _ _).isInfix

theorem Element.partJournal_infix {element : Element} {part : Node} (member : part ∈ element.parts)
    (depth : Nat) : part.journal (depth + 1) <:+: element.journal depth := by
  have within {pairs : List (String × Node)} (named : part ∈ pairs.map Prod.snd) :
      part.journal (depth + 1) <:+: pairs.flatMap fun pair => pair.2.journal (depth + 1) := by
    obtain ⟨pair, present, rfl⟩ := List.mem_map.mp named
    exact infix_flatMap present fun pair => pair.2.journal (depth + 1)
  rcases List.mem_append.mp member with member | content
  · rw [Element.journal_eq]
    refine List.IsInfix.trans ?_ (List.prefix_append _ _).isInfix
    rcases List.mem_append.mp member with prop | route
    · refine List.IsInfix.trans ?_ (List.prefix_append _ _).isInfix
      exact (within prop).trans (List.suffix_append _ _).isInfix
    · exact (within route).trans (List.suffix_append _ _).isInfix
  · exact (Siblings.journal_infix content _).trans (element.contentJournal_infix depth)

/-- The journal of a node that is visited stands in one piece in the journal of the whole. -/
theorem Node.exists_journal_infix {whole node : Node} (member : node ∈ whole.visited)
    (depth : Nat) : ∃ below, node.journal below <:+: whole.journal depth := by
  induction whole using Node.induction generalizing depth with
  | leaf content =>
    rw [Node.visited_leaf] at member
    rw [List.mem_singleton.mp member]
    exact ⟨depth, List.infix_rfl⟩
  | element element inductionHypothesis =>
    rw [Node.visited_element] at member
    rcases List.mem_cons.mp member with rfl | inside
    · exact ⟨depth, List.infix_rfl⟩
    · obtain ⟨part, present, within⟩ := List.mem_flatMap.mp inside
      obtain ⟨below, stands⟩ := inductionHypothesis part present within (depth + 1)
      rw [Node.journal_element]
      exact ⟨below, stands.trans (Element.partJournal_infix present depth)⟩

theorem exists_elementJournal_infix {nodes : List Node} {element : Element}
    (rendered : element ∈ renderedElements nodes) :
    ∃ depth, element.journal depth <:+: documentJournal nodes := by
  obtain ⟨node, member, is⟩ := List.mem_filterMap.mp rendered
  obtain ⟨root, present, within⟩ := List.mem_flatMap.mp member
  obtain ⟨depth, stands⟩ := Node.exists_journal_infix within 0
  cases node with
  | leaf content => exact absurd is nofun
  | element other =>
    rw [Node.journal_element, Option.some.inj is] at stands
    exact ⟨depth, stands.trans (Siblings.journal_infix present 0)⟩

theorem exists_siblingsJournal_infix {nodes siblings : List Node}
    (rendered : siblings ∈ renderedLists nodes) :
    ∃ depth, Siblings.journal depth siblings <:+: documentJournal nodes := by
  rcases List.mem_cons.mp rendered with rfl | content
  · exact ⟨0, List.infix_rfl⟩
  · obtain ⟨element, member, rfl⟩ := List.mem_map.mp content
    obtain ⟨depth, stands⟩ := exists_elementJournal_infix member
    exact ⟨depth + 1, (element.contentJournal_infix depth).trans stands⟩

/-! ### The log -/

/-- What is reported for siblings whose nodes are rendered on their own: for each slot the events of
its node, and then that the slot is written. -/
def Siblings.slotEvents (settings : Settings) (siblings : List Node) : List Event :=
  (Siblings.slots siblings).flatMap fun slot =>
    (settings.renderNode slot.2 "").events ++ [.slot slot.1 slot.2.kind]

theorem events_renderNode {settings : Settings} {node : Node} {depth : Nat}
    (passes : ∀ step ∈ node.journal depth, step.Passes settings.maxDepth) (indentation : String) :
    (settings.renderNode node indentation).events = reported (node.journal depth) := by
  rw [renderNode_eq_follow, events_follow (Node.passes_journal_zero passes),
    ← node.events_transcript indentation, node.events_transcript indentation depth]

/-- Several siblings are reported slot by slot. -/
theorem slotEvents_infix_reported {settings : Settings} {siblings : List Node} {depth : Nat}
    (passes : ∀ step ∈ Siblings.journal depth siblings, step.Passes settings.maxDepth) :
    Siblings.slotEvents settings siblings <:+: reported (Siblings.journal depth siblings) := by
  unfold Siblings.slotEvents Siblings.slots
  split
  · next several =>
    have slot (slot : Node × Nat) (member : slot ∈ siblings.zipIdx 1) :
        (settings.renderNode slot.1 "").events ++
            [.slot (slotLabel slot.1 slot.2) slot.1.kind] =
          reported (slotSteps slot.1 slot.2 (slot.1.journal depth)) := by
      have within := Siblings.journal_infix (List.fst_mem_of_mem_zipIdx member) depth
      rw [reported_slotSteps, events_renderNode fun step found => passes step (within.subset found)]
    rw [Siblings.journal_of_two_le depth several, reported_flatMap, List.flatMap_map,
      ← List.flatMap_congr slot]
  · exact List.nil_infix

/-- An event that reports a slot. -/
def Event.isSlot : Event → Bool
  | slot _ _ => true
  | duplicatePath _ | classified _ _ | converted _ _ _ => false

theorem Element.isSlot_of_mem_reports {element : Element} {event : Event}
    (member : event ∈ element.reports) : event.isSlot = false := by
  rcases List.mem_append.mp member with repeated | classified
  · obtain ⟨path, -, rfl⟩ := List.mem_map.mp repeated
    rfl
  · rw [List.mem_singleton.mp classified]
    rfl

/-- What an entry reports is its slot or what is reported about its element. -/
theorem Entry.filter_events (entry : Entry) :
    entry.events.filter Event.isSlot = entry.slots.map (fun slot => .slot slot.1 slot.2.kind) ∧
      (entry.events.filter fun event => !event.isSlot) =
        entry.elements.flatMap Element.reports := by
  cases entry with
  | header element =>
    constructor
    · exact List.filter_eq_nil_iff.mpr fun event member =>
        Bool.eq_false_iff.mp (Element.isSlot_of_mem_reports member)
    · rw [elements, List.flatMap_singleton]
      exact List.filter_eq_self.mpr fun event member => by
        rw [Element.isSlot_of_mem_reports member, Bool.not_false]
  | slot name node => exact ⟨rfl, rfl⟩
  | other text => exact ⟨rfl, rfl⟩

/-- What the events of a run say about the text of a document. -/
structure Accounts (settings : Settings) (nodes : List Node) (text : String)
    (events : List Event) : Prop where
  /-- The text is the transcript, entry by entry. -/
  written : text = String.join ((transcript settings.indentation nodes).map Entry.text)
  /-- The events are those of the entries and no others, so they are reported in the order in which
  the headers and the ends of slots are written. -/
  reported : events = (transcript settings.indentation nodes).flatMap Entry.events
  /-- There is a header for each element that is rendered. -/
  headers : (transcript settings.indentation nodes).flatMap Entry.elements =
    renderedElements nodes
  /-- An element is rendered when it is reachable. -/
  rendered : ∀ element, element ∈ renderedElements nodes ↔ Reachable nodes (.element element)
  /-- Apart from slots, each element that is rendered is reported once, and nothing else is. -/
  elements : (events.filter fun event => !event.isSlot) =
    (renderedElements nodes).flatMap Element.reports
  /-- What is reported about an element counts each of its children once. -/
  groups : ∀ element ∈ renderedElements nodes,
    (Children.routed element.children).length + (Children.content element.children).length +
        (Children.repeatedPaths element.children).length =
      element.children.length
  /-- Each slot of each list of several siblings that is rendered is reported once. -/
  slots : (events.filter Event.isSlot).Perm
    (((renderedLists nodes).flatMap Siblings.slots).map fun slot => .slot slot.1 slot.2.kind)
  /-- The slots of a list are reported in turn, each right after the events of its own node. -/
  turns : ∀ siblings ∈ renderedLists nodes, Siblings.slotEvents settings siblings <:+: events

/-- The events of a run that ends in a text account for the text. -/
theorem accounts_of_render_ok {settings : Settings} {nodes : List Node} {text : String}
    (renders : (settings.render nodes).result = .ok text) :
    Accounts settings nodes text (settings.render nodes).events := by
  rw [render_eq_follow] at renders ⊢
  obtain ⟨passes, rfl⟩ := follow_eq_ok_iff.mp renders
  rw [events_follow passes]
  refine ⟨(join_text_transcript _ _).symm, (events_transcript _ _).symm, elements_transcript _ _,
    fun _ => mem_renderedElements_iff, ?_, fun element rendered => ?_, ?_,
    fun siblings rendered => ?_⟩
  · rw [← events_transcript settings.indentation, ← elements_transcript settings.indentation,
      List.filter_flatMap, List.flatMap_assoc]
    exact List.flatMap_congr fun entry _ => entry.filter_events.2
  · obtain ⟨depth, stands⟩ := exists_elementJournal_infix rendered
    have classified : classifySteps element.children ⊆ element.journal depth := by
      rw [Element.journal_eq]
      intro step member
      simp only [List.mem_append, member, true_or, or_true]
    have readable : ∀ child ∈ element.children, ¬ Unreadable (child.payload? .path) :=
      passes_classifySteps_iff.mp fun step member =>
        passes step (stands.subset (classified member))
    rw [Children.length_routed, Nat.add_right_comm, Children.length_repeatedPaths,
      Children.length_content readable]
  · rw [← events_transcript settings.indentation, List.filter_flatMap,
      List.flatMap_congr fun entry _ => entry.filter_events.1, ← List.map_flatMap]
    exact (slots_transcript settings.indentation nodes).map _
  · obtain ⟨depth, stands⟩ := exists_siblingsJournal_infix rendered
    exact (slotEvents_infix_reported fun step member => passes step (stands.subset member)).trans
      (stands.filterMap Step.event?)

/-- An element with an element among its properties, a child whose path is taken by a later one, and
two children in slots. The child that is not written is reported by its path alone. -/
theorem accounts_of_render_ok_nested :
    let tag (name : String) (props : List (String × Node)) (children : List Node) :=
      Node.element ⟨name, props, children, false⟩
    let path : String × Node := ("@path", .leaf (.literal "p"))
    let nodes :=
      [tag "a" [("icon", tag "b" [] [])]
        [tag "c" [path] [], .leaf (.text "x"), tag "d" [path] [],
          tag "e" [("@key", .leaf (.literal "k"))] []]]
    let text := "Neos.Fusion:Tag \x7b\n    tagName = 'a'\n" ++
      "    attributes.icon = Neos.Fusion:Tag \x7b\n        tagName = 'b'\n    \x7d\n" ++
      "    p = Neos.Fusion:Tag \x7b\n        tagName = 'd'\n    \x7d\n" ++
      "    content = Neos.Fusion:Array \x7b\n        1 = 'x'\n" ++
      "        k = Neos.Fusion:Tag \x7b\n            tagName = 'e'\n        \x7d\n    \x7d\n\x7d"
    (Settings.render {} nodes).result = .ok text ∧
      Accounts {} nodes text
        [.duplicatePath "p", .classified 1 2, .classified 0 0, .classified 0 0, .slot "1" .text,
          .classified 0 0, .slot "k" .element] := by
  intro tag path nodes text
  have renders : (Settings.render {} nodes).result = .ok text := by decide +kernel
  have events : (Settings.render {} nodes).events =
      [.duplicatePath "p", .classified 1 2, .classified 0 0, .classified 0 0, .slot "1" .text,
        .classified 0 0, .slot "k" .element] := by decide +kernel
  exact ⟨renders, events ▸ accounts_of_render_ok renders⟩

end MarkupBlocks
