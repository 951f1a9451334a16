/-
The journal of a markup tree.

A journal lists the steps of the work on a tree in order, as if nothing could stop it: each
element that is entered with its level, each event, and each fault in the place where the
work comes upon it. A run follows the journal until a step stops it, which is a fault or an
element beyond the limit. So a run is told by the journal and the outline together: the
journal decides how far it comes and what it reports, the outline what it ends in.
-/

import MarkupBlocks.Proofs.Outline
import MarkupBlocks.Rendering

namespace MarkupBlocks

/-- A step of the work on a tree. -/
inductive Step where
  /-- An element is entered; the outermost elements are at level one. -/
  | enter (level : Nat)
  | event (event : Event)
  | fault (fault : Fault)

/-- Follows the steps of a journal and ends in a value, unless a step ends the run. -/
def follow {Result : Type} (limit : Option Nat) : List Step → Result → Run Result
  | [], value => pure value
  | .enter level :: rest, value => do
    checkLevel limit level
    follow limit rest value
  | .event event :: rest, value => do
    Traced.report event
    follow limit rest value
  | .fault fault :: _, _ => Traced.fail fault

section Follow

variable {Source Result Final : Type} (limit : Option Nat)

theorem follow_nil (value : Result) : follow limit [] value = pure value := rfl

theorem follow_enter (level : Nat) (value : Result) :
    follow limit [.enter level] value = do
      checkLevel limit level
      return value := rfl

/-- One journal after another is followed as a whole. The value of the first is not the result
of a run that a fault ends, so it plays no part there. -/
theorem follow_bind (first : List Step) (value : Result) (next : Result → Run Final)
    (second : List Step) (final : Final) (continues : next value = follow limit second final) :
    follow limit first value >>= next = follow limit (first ++ second) final := by
  induction first with
  | nil => rw [follow_nil, pure_bind, continues, List.nil_append]
  | cons step rest inductionHypothesis =>
    cases step with
    | enter level => simp only [List.cons_append, follow, bind_assoc, inductionHypothesis]
    | event event => simp only [List.cons_append, follow, bind_assoc, inductionHypothesis]
    | fault fault => rfl

theorem follow_map (steps : List Step) (value : Result) (change : Result → Final) :
    (do return change (← follow limit steps value)) = follow limit steps (change value) := by
  have joined := follow_bind limit steps value (fun result => pure (change result)) []
    (change value) rfl
  rwa [List.append_nil] at joined

/-- The value that a run is to end in plays no part until it does. -/
theorem follow_eq_map (steps : List Step) (value : Result) :
    follow limit steps value =
      ⟨(follow limit steps ()).events, (follow limit steps ()).result.map fun _ => value⟩ := by
  have mapped := follow_map limit steps () fun _ => value
  cases ends : (follow limit steps ()).result with
  | ok done =>
    rw [Traced.bind_of_ok ends, Traced.events_pure, List.append_nil] at mapped
    exact mapped.symm
  | error fault =>
    rw [Traced.bind_of_error ends] at mapped
    exact mapped.symm

/-- A run that follows journals one after another follows them joined. -/
theorem mapM_eq_follow {items : List Source} {run : Source → Run Result}
    {steps : Source → List Step} {value : Source → Result}
    (each : ∀ item ∈ items, run item = follow limit (steps item) (value item)) :
    items.mapM run = follow limit (items.flatMap steps) (items.map value) := by
  induction items with
  | nil => rfl
  | cons item rest inductionHypothesis =>
    have later := inductionHypothesis fun other member => each other (List.mem_cons_of_mem _ member)
    rw [List.mapM_cons, each item List.mem_cons_self, List.flatMap_cons, List.map_cons]
    refine follow_bind limit _ _ _ _ _ ?_
    rw [later]
    exact follow_map limit _ _ _

end Follow

/-! ### Journals of the single steps -/

/-- The fault of a payload that cannot be read. -/
def payloadSteps (control : Control) : Option Node → List Step
  | none => []
  | some node =>
    match node.literal? with
    | some _ => []
    | none => [.fault (.payload control node.kind.name)]

/-- Paths are read from left to right. -/
def pathSteps (seen : List String) : List Node → List Step
  | [] => []
  | child :: rest =>
    payloadSteps .path (child.payload? .path) ++
      match child.path? with
      | none => pathSteps seen rest
      | some path =>
        (if path ∈ seen then [.event (.duplicatePath path)] else []) ++
          pathSteps (path :: seen) rest

/-- The children of an element are sorted. -/
def classifySteps (children : List Node) : List Step :=
  pathSteps [] children ++
    [.event (.classified (Children.routed children).length (Children.content children).length)]

/-- The content of an element is assigned when there is any. -/
def contentSteps (element : Element) (content : List Step) : List Step :=
  if (Children.content element.children).isEmpty then []
  else payloadSteps .children (element.prop? Control.children.name) ++ content

/-- A slot is filled: its key is read before its node is looked at, and it is reported after. -/
def slotSteps (node : Node) (position : Nat) (steps : List Step) : List Step :=
  payloadSteps .key (node.payload? .key) ++ steps ++
    [.event (.slot (slotLabel node position) node.kind)]

section Steps

variable (limit : Option Nat)

theorem ofExcept_readPayload {Result : Type} (control : Control) (payload : Option Node)
    (next : Option String → Run Result) :
    Traced.ofExcept (readPayload control payload) >>= next =
      follow limit (payloadSteps control payload) (readable payload) >>= next := by
  cases payload with
  | none => rfl
  | some node =>
    rw [readPayload, payloadSteps, readable_some]
    cases node.literal? <;> rfl

theorem ofExcept_map {Source Result : Type} (source : Except Fault Source)
    (change : Source → Result) :
    (Traced.ofExcept (do return change (← source)) : Run Result) =
      Traced.ofExcept source >>= fun value => pure (change value) := by
  cases source <;> rfl

theorem readPaths_eq_follow (seen : List String) (children : List Node) :
    Children.readPaths seen children = follow limit (pathSteps seen children) () := by
  induction children generalizing seen with
  | nil => rfl
  | cons child rest inductionHypothesis =>
    rw [Children.readPaths, Node.readControl, ofExcept_readPayload limit, pathSteps, ← Node.path?]
    refine follow_bind limit _ _ _ _ _ ?_
    cases child.path? with
    | none => exact inductionHypothesis seen
    | some path =>
      simp only [Children.reportRepeated, inductionHypothesis (path :: seen)]
      split <;> rfl

theorem classify_eq_follow (children : List Node) :
    Children.classify children = follow limit (classifySteps children) () := by
  rw [Children.classify, readPaths_eq_follow limit, classifySteps]
  exact follow_bind limit _ _ _ _ _ rfl

theorem assign_eq_follow (name : String) (steps : List Step) (value : Value) :
    assign name (follow limit steps value) = follow limit steps (name, value) :=
  follow_map limit steps value fun value => (name, value)

theorem assignContent_eq_follow (element : Element) (steps : List Step) (outline : Outline) :
    assignContent element (follow limit steps outline.value) =
      follow limit (contentSteps element steps)
        (outlinedValues (element.assignedContent outline)) := by
  rw [assignContent, contentSteps, Element.assignedContent_eq]
  split
  · rfl
  · rw [Element.contentName, ofExcept_map, bind_assoc, Element.readControl,
      ofExcept_readPayload limit]
    refine follow_bind limit _ _ _ _ _ ?_
    rw [pure_bind]
    exact follow_map limit steps _ _

theorem fillSlot_eq_follow (node : Node) (position : Nat) (steps : List Step) (value : Value) :
    fillSlot node position (follow limit steps value) =
      follow limit (slotSteps node position steps) (slotLabel node position, value) := by
  rw [fillSlot, slotName, ofExcept_map, bind_assoc, Node.readControl, ofExcept_readPayload limit,
    slotSteps, List.append_assoc]
  refine follow_bind limit _ _ _ _ _ ?_
  rw [pure_bind]
  exact follow_bind limit _ _ _ _ _ rfl

end Steps

/-! ### Journals of nodes -/

mutual

/-- The journal of a node inside of as many elements as the depth says. -/
def Node.journal (depth : Nat) : Node → List Step
  | .leaf _ => []
  | .element root => root.journal depth
termination_by node => 3 * node.size + 1
decreasing_by simp only [Node.size]; omega

/-- The journal of an element: it is entered, its children are sorted, and then its parts are
looked at. -/
def Element.journal (depth : Nat) (element : Element) : List Step :=
  [.enter (depth + 1)] ++ classifySteps element.children ++
    (element.assignedProps.attach.flatMap fun pair => pair.1.2.journal (depth + 1)) ++
    ((Children.routed element.children).attach.flatMap fun pair =>
      pair.1.2.journal (depth + 1)) ++
    contentSteps element
      (Siblings.journal (depth + 1) (Siblings.significant (Children.content element.children)))
termination_by 3 * element.size
decreasing_by
  · have smaller : pair.val.2.size < _ := size_lt_of_mem_assignedProps pair.2
    omega
  · have smaller : pair.val.2.size < _ := size_lt_of_mem_routed pair.2
    omega
  · have smaller := childrenSize_significant_content_lt element
    omega

/-- The journal of siblings that all mean something. -/
def Siblings.journal (depth : Nat) : List Node → List Step
  | [] => []
  | [node] => node.journal depth
  | first :: second :: rest =>
    ((first :: second :: rest).zipIdx 1).attach.flatMap fun slot =>
      slotSteps slot.1.1 slot.1.2 (slot.1.1.journal depth)
termination_by nodes => 3 * childrenSize nodes + 2
decreasing_by
  · simp only [childrenSize]; omega
  · have bound : slot.val.1.size ≤ _ := size_le_of_mem_zipIdx slot.2
    omega

end

theorem Node.journal_leaf (depth : Nat) (content : Leaf) :
    (Node.leaf content).journal depth = [] := by
  rw [Node.journal]

theorem Node.journal_element (depth : Nat) (root : Element) :
    (Node.element root).journal depth = root.journal depth := by
  rw [Node.journal]

theorem Element.journal_eq (depth : Nat) (element : Element) :
    element.journal depth =
      [.enter (depth + 1)] ++ classifySteps element.children ++
        (element.assignedProps.flatMap fun pair => pair.2.journal (depth + 1)) ++
        ((Children.routed element.children).flatMap fun pair => pair.2.journal (depth + 1)) ++
        contentSteps element
          (Siblings.journal (depth + 1)
            (Siblings.significant (Children.content element.children))) := by
  rw [Element.journal]
  simp only [List.flatMap_subtype, List.unattach_attach]

theorem Siblings.journal_nil (depth : Nat) : Siblings.journal depth [] = [] := by
  rw [Siblings.journal]

theorem Siblings.journal_singleton (depth : Nat) (node : Node) :
    Siblings.journal depth [node] = node.journal depth := by
  rw [Siblings.journal]

theorem Siblings.journal_of_two_le (depth : Nat) {nodes : List Node}
    (several : 2 ≤ nodes.length) :
    Siblings.journal depth nodes =
      (nodes.zipIdx 1).flatMap fun slot =>
        slotSteps slot.1 slot.2 (slot.1.journal depth) := by
  match nodes with
  | first :: second :: rest =>
    rw [Siblings.journal]
    simp only [List.flatMap_subtype, List.unattach_attach]

/-! ### The run is told by the journal and the outline -/

theorem checkLevel_eq_follow (limit : Option Nat) (level : Nat) :
    checkLevel limit level = follow limit [.enter level] () := by
  rw [follow_enter]
  exact (bind_pure (checkLevel limit level)).symm

theorem outlinedValues_tagOutline (element : Element) :
    outlinedValues element.tagOutline =
      element.tagProps.map fun pair => (pair.1, .scalar pair.2.print) := by
  rw [outlinedValues_eq_map, Element.tagOutline, List.map_map]
  rfl

theorem assigned_eq_follow (limit : Option Nat) (depth : Nat) {pairs : List (String × Node)}
    (each : ∀ pair ∈ pairs,
      Value.ofNode limit depth pair.2 = follow limit (pair.2.journal depth) pair.2.outline.value) :
    (pairs.mapM fun pair => assign pair.1 (Value.ofNode limit depth pair.2)) =
      follow limit (pairs.flatMap fun pair => pair.2.journal depth)
        (outlinedValues (pairs.map fun pair => (pair.1, pair.2.outline))) := by
  rw [outlinedValues_eq_map, List.map_map]
  refine mapM_eq_follow limit fun pair member => ?_
  rw [each pair member, assign_eq_follow]
  rfl

theorem ofSiblings_eq_follow_of_forall (limit : Option Nat) (depth : Nat) {nodes : List Node}
    (each : ∀ node ∈ nodes,
      Value.ofNode limit depth node = follow limit (node.journal depth) node.outline.value) :
    Value.ofSiblings limit depth nodes =
      follow limit (Siblings.journal depth nodes) (Siblings.outline nodes).value := by
  match nodes with
  | [] => rw [Value.ofSiblings_nil, Siblings.journal_nil, Siblings.outline_nil]; rfl
  | [node] =>
    rw [Value.ofSiblings_singleton, Siblings.journal_singleton, Siblings.outline_singleton]
    exact each node List.mem_cons_self
  | first :: second :: rest =>
    have several : 2 ≤ (first :: second :: rest).length := Nat.le_add_left 2 rest.length
    have slot (pair : Node × Nat) (member : pair ∈ (first :: second :: rest).zipIdx 1) :
        fillSlot pair.1 pair.2 (Value.ofNode limit depth pair.1) =
          follow limit (slotSteps pair.1 pair.2 (pair.1.journal depth))
            (slotLabel pair.1 pair.2, pair.1.outline.value) := by
      rw [each pair.1 (List.fst_mem_of_mem_zipIdx member), fillSlot_eq_follow]
    rw [Value.ofSiblings_of_two_le limit depth several,
      Siblings.journal_of_two_le depth several, Siblings.outline_of_two_le several,
      mapM_eq_follow limit slot, follow_map, Outline.value, outlinedValues_eq_map, List.map_map]
    rfl

/-- The value of a node is had by following its journal, and is that of its outline. -/
theorem ofNode_eq_follow (limit : Option Nat) (depth : Nat) (node : Node) :
    Value.ofNode limit depth node = follow limit (node.journal depth) node.outline.value := by
  induction node using Node.induction generalizing depth with
  | leaf content =>
    rw [Value.ofNode_leaf, Node.journal_leaf, Node.outline_leaf]
    rfl
  | element element inductionHypothesis =>
    rw [Value.ofNode_element, Node.journal_element, Node.outline_element, Value.ofElement_eq,
      Element.journal_eq, Element.outline_eq]
    have props := assigned_eq_follow limit (depth + 1) fun pair member =>
      inductionHypothesis pair.2 (Element.mem_parts_of_assigned member) (depth + 1)
    have routes := assigned_eq_follow limit (depth + 1) fun pair member =>
      inductionHypothesis pair.2 (Element.mem_parts_of_routed member) (depth + 1)
    have contents := ofSiblings_eq_follow_of_forall limit (depth + 1) fun node member =>
      inductionHypothesis node (element.mem_parts_of_content member) (depth + 1)
    simp only [List.append_assoc]
    rw [checkLevel_eq_follow]
    refine follow_bind limit _ _ _ _ _ ?_
    rw [classify_eq_follow limit]
    refine follow_bind limit _ _ _ _ _ ?_
    rw [props]
    refine follow_bind limit _ _ _ _ _ ?_
    rw [routes]
    refine follow_bind limit _ _ _ _ _ ?_
    rw [contents, assignContent_eq_follow, follow_map, Outline.value, ← outlinedValues_tagOutline]
    simp only [outlinedValues_append]

theorem ofSiblings_eq_follow (limit : Option Nat) (depth : Nat) (nodes : List Node) :
    Value.ofSiblings limit depth nodes =
      follow limit (Siblings.journal depth nodes) (Siblings.outline nodes).value :=
  ofSiblings_eq_follow_of_forall limit depth fun node _ => ofNode_eq_follow limit depth node

/-- A run that succeeds ends in the value it was to end in. -/
theorem eq_of_follow_ok {Result : Type} {limit : Option Nat} {steps : List Step}
    {value result : Result} (succeeds : (follow limit steps value).result = .ok result) :
    result = value := by
  induction steps with
  | nil => exact (Except.ok.inj succeeds).symm
  | cons step rest inductionHypothesis =>
    cases step with
    | enter level =>
      rw [follow] at succeeds
      cases passes : (checkLevel limit level).result with
      | ok checked =>
        rw [Traced.bind_of_ok passes] at succeeds
        exact inductionHypothesis succeeds
      | error fault =>
        rw [Traced.bind_of_error passes] at succeeds
        exact absurd succeeds nofun
    | event event => exact inductionHypothesis succeeds
    | fault fault => exact absurd succeeds nofun

/-- The journal of a document. -/
def documentJournal (nodes : List Node) : List Step :=
  Siblings.journal 0 (Siblings.significant nodes)

section Rendering

variable (settings : Settings)

/-- To render a node is to follow its journal and to write its outline. -/
theorem renderNode_eq_follow (node : Node) (indentation : String) :
    settings.renderNode node indentation =
      follow settings.maxDepth (node.journal 0) (node.outline.value.print indentation) := by
  rw [Settings.renderNode, ofNode_eq_follow]
  exact follow_map _ _ _ _

/-- To render an element is to follow its journal and to write its outline. -/
theorem renderElement_eq_follow (element : Element) (indentation : String) :
    settings.renderElement element indentation =
      follow settings.maxDepth (element.journal 0)
        ((Node.element element).outline.value.print indentation) := by
  have value := ofNode_eq_follow settings.maxDepth 0 (.element element)
  rw [Value.ofNode_element, Node.journal_element] at value
  rw [Settings.renderElement, value]
  exact follow_map _ _ _ _

/-- To render siblings is to follow the journal and to write the outline of those that mean
something. -/
theorem renderSiblings_eq_follow (nodes : List Node) (indentation : String) :
    settings.renderSiblings nodes indentation =
      follow settings.maxDepth (documentJournal nodes)
        ((assignmentTree nodes).print indentation) := by
  rw [Settings.renderSiblings, ofSiblings_eq_follow]
  exact follow_map _ _ _ _

/-- To render a document is to follow its journal and to write its assignment tree. -/
theorem render_eq_follow (nodes : List Node) :
    settings.render nodes =
      follow settings.maxDepth (documentJournal nodes)
        ((assignmentTree nodes).print settings.indentation) :=
  renderSiblings_eq_follow settings nodes settings.indentation

end Rendering

/-- A document that renders is written as its assignment tree. -/
theorem eq_print_of_render_ok {settings : Settings} {nodes : List Node} {text : String}
    (renders : (settings.render nodes).result = .ok text) :
    text = (assignmentTree nodes).print settings.indentation := by
  rw [render_eq_follow] at renders
  exact eq_of_follow_ok renders

end MarkupBlocks
