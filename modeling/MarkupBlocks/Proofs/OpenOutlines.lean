/-
Outlines that vary with a leaf.

An outline with one place left open is written as one text before the place and one after it. When
a part of a tree varies with a leaf and shows it in one place, a tree around the part does so too,
if the part is looked at; otherwise the tree does not vary. A part is looked at when it is the value
of a property that is not reserved, when it is what is left of a child without a path, or when it is
the last child with a path that can be read.
-/

import MarkupBlocks.Proofs.Decisions
import MarkupBlocks.Proofs.Places
import MarkupBlocks.Value.Print

namespace MarkupBlocks

/-! ### Outlines with one place left open -/

/-- An outline with one place left open for a leaf. -/
inductive OpenOutline where
  | here
  | block (prototype : String) (before : List (String × Outline)) (name : String)
      (inner : OpenOutline) (after : List (String × Outline))

/-- Puts a leaf into the place. -/
def OpenOutline.fill (content : Leaf) : OpenOutline → Outline
  | here => .leaf content
  | block prototype before name inner after =>
    .block prototype (before ++ (name, inner.fill content) :: after)

theorem printAssignments_append (indentation : String) (left right : List (String × Value)) :
    printAssignments indentation (left ++ right) =
      printAssignments indentation left ++ printAssignments indentation right := by
  induction left with
  | nil => exact String.empty_append.symm
  | cons head rest inductionHypothesis =>
    obtain ⟨name, value⟩ := head
    rw [List.cons_append, printAssignments, printAssignments, inductionHypothesis]
    exact (String.append_assoc ..).symm

/-- All that is written around the place is the same for every leaf. -/
theorem OpenOutline.exists_print_fill (place : OpenOutline) (indentation : String) :
    ∃ start rest, ∀ content : Leaf,
      (place.fill content).value.print indentation = start ++ content.print ++ rest := by
  induction place generalizing indentation with
  | here =>
    refine ⟨"", "", fun content => ?_⟩
    rw [fill, Outline.value, Value.print, String.empty_append, String.append_empty]
  | block prototype before name inner after inductionHypothesis =>
    obtain ⟨start, rest, written⟩ := inductionHypothesis (indentation ++ indentStep)
    refine ⟨prototype ++ " \x7b\n" ++ printAssignments (indentation ++ indentStep)
        (outlinedValues before) ++ (indentation ++ indentStep ++ name ++ " = " ++ start),
      rest ++ "\n" ++ printAssignments (indentation ++ indentStep) (outlinedValues after) ++
        indentation ++ "\x7d", fun content => ?_⟩
    rw [fill, Outline.value, Value.print, outlinedValues_append, printAssignments_append,
      outlinedValues, printAssignments, written]
    simp only [String.append_assoc]

/-! ### Children that are looked at -/

/-- An element looks at a child when it has no path, or a path that can be read and that no later
child carries. -/
def Children.Taken (child : Node) (after : List Node) : Prop :=
  match child.readControl .path with
  | .ok none => True
  | .ok (some path) => ∀ later ∈ after, later.path? ≠ some path
  | .error _ => False

/-! ### Outlines that vary with a leaf -/

/-- Siblings that compare alike have one slot when there are several. -/
theorem SiblingsAlike.slotLabel_eq {comparison : Comparison} {siblings : List Node}
    {left right kept other : Node} (alike : SiblingsAlike comparison siblings left right)
    (leftKept : left.significant? = some kept) (rightKept : right.significant? = some other)
    (several : 2 ≤ (Siblings.significant siblings).length) (position : Nat) :
    slotLabel kept position = slotLabel other position := by
  rw [SiblingsAlike, leftKept, rightKept] at alike
  cases alike with
  | some alike => exact (alike.2 several position).1

/-- Elements with the same groups of children have one outline. -/
theorem outline_eq_of_groups (identifier : String) (props : List (String × Node))
    (selfClosing : Bool) {left right : List Node}
    (routed : Children.routed left = Children.routed right)
    (content : Children.content left = Children.content right) :
    (Node.element ⟨identifier, props, left, selfClosing⟩).outline =
      (Node.element ⟨identifier, props, right, selfClosing⟩).outline := by
  rw [Node.outline_element, Node.outline_element, Element.outline_eq, Element.outline_eq,
    Element.assignedContent_eq, Element.assignedContent_eq]
  simp only [routed, content]
  rfl

section Varying

variable {Choice : Type} {kept : Choice → Leaf} {shows : Choice → Prop}

/-- Of outlines that vary with a leaf, all are the same and the leaf does not show, or it shows in
one place and all else is the same. -/
def OpensOnce (kept : Choice → Leaf) (shows : Choice → Prop) (outline : Choice → Outline) : Prop :=
  (∃ tree, ∀ choice, ¬ shows choice ∧ outline choice = tree) ∨
    ∃ place : OpenOutline, ∀ choice, shows choice ∧ outline choice = place.fill (kept choice)

namespace OpensOnce

variable {outline : Choice → Outline}

theorem congr (opens : OpensOnce kept shows outline) {shown : Choice → Prop}
    {other : Choice → Outline} (alike : ∀ choice, shown choice ↔ shows choice)
    (same : ∀ choice, other choice = outline choice) : OpensOnce kept shown other := by
  have showsSame : shown = shows := funext fun choice => propext (alike choice)
  have outlineSame : other = outline := funext same
  rw [showsSame, outlineSame]
  exact opens

theorem block (opens : OpensOnce kept shows outline) (prototype : String)
    (before : List (String × Outline)) (name : String) (after : List (String × Outline)) :
    OpensOnce kept shows fun choice =>
      .block prototype (before ++ (name, outline choice) :: after) := by
  rcases opens with ⟨tree, hidden⟩ | ⟨place, shown⟩
  · refine Or.inl ⟨.block prototype (before ++ (name, tree) :: after), fun choice => ?_⟩
    refine ⟨(hidden choice).1, ?_⟩
    show Outline.block _ _ = _
    rw [(hidden choice).2]
  · refine Or.inr ⟨.block prototype before name place after, fun choice => ?_⟩
    refine ⟨(shown choice).1, ?_⟩
    show Outline.block _ _ = _
    rw [(shown choice).2, OpenOutline.fill]

/-- An element of which the last child with a path varies. -/
theorem routed {node : Choice → Node}
    (opens : OpensOnce kept shows fun choice => (node choice).outline) (identifier : String)
    (props : List (String × Node)) (before after : List Node) (selfClosing : Bool) {path : String}
    (carried : ∀ choice, (node choice).path? = some path)
    (last : ∀ later ∈ after, later.path? ≠ some path) :
    OpensOnce kept shows fun choice =>
      (Node.element ⟨identifier, props, before ++ node choice :: after, selfClosing⟩).outline := by
  obtain ⟨earlier, later, routes⟩ := Children.exists_routed_of_last before last
  let row (pair : String × Node) : String × Outline := (pair.1, pair.2.outline)
  let element : Element := ⟨identifier, props, before ++ after, selfClosing⟩
  refine (opens.block element.prototype
    (element.tagOutline ++ element.assignedProps.map row ++ earlier.map row) path
    (later.map row ++ element.assignedContent (Siblings.outline (Siblings.significant
      (Children.content element.children))))).congr (fun _ => Iff.rfl) fun choice => ?_
  have content : Children.content (before ++ node choice :: after) =
      Children.content (before ++ after) := by
    rw [Children.content_of_routed _ _ (Node.payload?_ne_none_of_path? (carried choice))]
    exact (List.filter_append ..).symm
  rw [Node.outline_element, Element.outline_eq, Element.assignedContent, Element.contentLabel?]
  simp only [routes _ (carried choice), content, List.map_append, List.map_cons, List.append_assoc,
    List.cons_append]
  rfl

variable [Inhabited Choice]

/-- What does not vary does not show the leaf. -/
theorem of_hidden (hidden : ∀ choice, ¬ shows choice)
    (same : ∀ choice, outline choice = outline default) : OpensOnce kept shows outline :=
  Or.inl ⟨outline default, fun choice => ⟨hidden choice, same choice⟩⟩

variable {node : Choice → Node} (opens : OpensOnce kept shows fun choice => (node choice).outline)

include opens

/-- Siblings of which one varies. -/
theorem siblings (before after : List Node)
    (labels : ∀ choice, 2 ≤ (before ++ node choice :: after).length → ∀ position,
      slotLabel (node choice) position = slotLabel (node default) position) :
    OpensOnce kept shows fun choice => Siblings.outline (before ++ node choice :: after) := by
  by_cases single : before = [] ∧ after = []
  · obtain ⟨rfl, rfl⟩ := single
    exact opens.congr (fun _ => Iff.rfl) fun choice => Siblings.outline_singleton _
  · have several (choice : Choice) : 2 ≤ (before ++ node choice :: after).length := by
      rw [List.length_append, List.length_cons]
      rw [← List.length_eq_zero_iff, ← List.length_eq_zero_iff] at single
      omega
    let row (slot : Node × Nat) : String × Outline := (slotLabel slot.1 slot.2, slot.1.outline)
    refine (opens.block arrayPrototype ((before.zipIdx 1).map row)
      (slotLabel (node default) (1 + before.length))
      ((after.zipIdx (1 + before.length + 1)).map row)).congr (fun _ => Iff.rfl) fun choice => ?_
    rw [Siblings.outline_of_two_le (several choice), List.zipIdx_append, List.zipIdx_cons,
      List.map_append, List.map_cons, labels choice (several choice)]

/-- An element of which the value of a property varies. -/
theorem prop (identifier : String) (before : List (String × Node)) (name : String)
    (after : List (String × Node)) (children : List Node) (selfClosing : Bool)
    (seen : ∀ choice, (Surroundings.prop name).Alike (.stepsUpTo Step.decides) (node choice)
      (node default)) :
    OpensOnce kept (fun choice => Control.isReserved name = false ∧ shows choice) fun choice =>
      (Node.element
        ⟨identifier, before ++ (name, node choice) :: after, children, selfClosing⟩).outline := by
  cases reserved : Control.isReserved name with
  | true =>
    refine of_hidden (fun choice both => absurd both.1 nofun) fun choice => ?_
    have alike : (Surroundings.prop name).Alike (.upTo Step.decides) (node choice)
        (node default) :=
      ⟨fun free => absurd (reserved.symm.trans free) nofun, (seen choice).2⟩
    exact (agree_replace_prop alike).2
  | false =>
    let element (value : Node) : Element :=
      ⟨identifier, before ++ (name, value) :: after, children, selfClosing⟩
    let row (pair : String × Node) : String × Outline := (pair.1, pair.2.outline)
    let assigned (props : List (String × Node)) : List (String × Outline) :=
      ((props.filter fun prop => !Control.isReserved prop.1).map fun prop =>
        ((element (node default)).assignedName prop.1, prop.2)).map row
    refine (opens.block (element (node default)).prototype
      ((element (node default)).tagOutline ++ assigned before)
      ((element (node default)).assignedName name)
      (assigned after ++ (Children.routed children).map row ++
        (element (node default)).assignedContent
          (Siblings.outline (Siblings.significant (Children.content children))))).congr
      (fun _ => and_iff_right rfl) fun choice => ?_
    have props : (element (node choice)).assignedProps.map row =
        assigned before ++ ((element (node default)).assignedName name, (node choice).outline) ::
          assigned after := by
      rw [Element.assignedProps, List.filter_append,
        List.filter_cons_of_pos (by simp [reserved]), List.map_append, List.map_cons,
        List.map_append, List.map_cons]
      rfl
    have label : (element (node choice)).contentLabel = (element (node default)).contentLabel := by
      rw [Element.contentLabel, Element.contentLabel,
        readable_eq_of_readPayload (readControl_replace_prop (seen choice) .children)]
    rw [Node.outline_element, Element.outline_eq, props, Element.assignedContent,
      Element.contentLabel?, label]
    simp only [List.append_assoc, List.cons_append]
    rfl

section Child

variable (identifier : String) (props : List (String × Node)) (before after : List Node)
  (selfClosing : Bool)

/-- An element of which a child without a path varies. -/
theorem content {child : Choice → Node}
    (settles : ∀ choice, (child choice).significant? = some (node choice))
    (unrouted : ∀ choice, (child choice).payload? .path = none)
    (labels : ∀ choice, 2 ≤ (Siblings.significant (Children.content before) ++ node choice ::
        Siblings.significant (Children.content after)).length → ∀ position,
      slotLabel (node choice) position = slotLabel (node default) position) :
    OpensOnce kept shows fun choice =>
      (Node.element ⟨identifier, props, before ++ child choice :: after, selfClosing⟩).outline := by
  let row (pair : String × Node) : String × Outline := (pair.1, pair.2.outline)
  let element : Element := ⟨identifier, props, before ++ after, selfClosing⟩
  refine ((opens.siblings _ _ labels).block element.prototype
    (element.tagOutline ++ element.assignedProps.map row ++
      (Children.routed (before ++ after)).map row) element.contentLabel []).congr (fun _ => Iff.rfl)
    fun choice => ?_
  have unread : (child choice).path? = none := by
    rw [Node.path?, unrouted choice, readable_none]
  have kept : Siblings.significant (Children.content (before ++ child choice :: after)) =
      Siblings.significant (Children.content before) ++ node choice ::
        Siblings.significant (Children.content after) := by
    rw [Children.content_of_unrouted _ _ (unrouted choice), Siblings.significant_append_cons,
      settles]
    rfl
  have some : (Children.content (before ++ child choice :: after)).isEmpty = false := by
    rw [Children.content_of_unrouted _ _ (unrouted choice)]
    exact List.isEmpty_eq_false_iff.mpr
      (List.append_ne_nil_of_right_ne_nil _ (List.cons_ne_nil _ _))
  rw [Node.outline_element, Element.outline_eq, Element.assignedContent_eq]
  simp only [Children.routed_of_path?_eq_none unread, kept, some, if_neg Bool.false_ne_true]
  rfl

/-- An element of which a child varies. -/
theorem child {child : Choice → Node}
    (settles : ∀ choice, (child choice).significant? = some (node choice))
    (seen : ∀ choice, (Surroundings.children before after).Alike (.stepsUpTo Step.decides)
      (child choice) (child default)) :
    OpensOnce kept (fun choice => Children.Taken (child choice) after ∧ shows choice)
      fun choice => (Node.element
        ⟨identifier, props, before ++ child choice :: after, selfClosing⟩).outline := by
  have reads (choice : Choice) : (child choice).readControl .path =
      (child default).readControl .path := (seen choice).1
  simp only [Children.Taken, reads]
  cases reading : (child default).readControl .path with
  | error fault =>
    -- A path that cannot be read takes the child out of both groups.
    have gone (choice : Choice) : (child choice).path? = none ∧
        (child choice).payload? .path ≠ none :=
      Node.path?_of_readControl_error ((reads choice).trans reading)
    refine of_hidden (fun choice both => both.1) fun choice => ?_
    refine outline_eq_of_groups identifier props selfClosing ?_ ?_
    · rw [Children.routed_of_path?_eq_none (gone choice).1,
        Children.routed_of_path?_eq_none (gone default).1]
    · rw [Children.content_of_routed _ _ (gone choice).2,
        Children.content_of_routed _ _ (gone default).2]
  | ok said =>
    cases said with
    | none =>
      have unrouted (choice : Choice) : (child choice).payload? .path = none :=
        Node.payload?_of_readControl_none ((reads choice).trans reading)
      refine (opens.content identifier props before after selfClosing settles unrouted
        fun choice several position => ?_).congr (fun _ => and_iff_right trivial) fun _ => rfl
      have alike := (seen choice).2.2 (unrouted choice)
      rw [Children.content_of_unrouted _ _ (unrouted choice)] at alike
      refine alike.slotLabel_eq (settles choice) (settles default) ?_ position
      rwa [Siblings.significant_append_cons, settles]
    | some path =>
      have carried (choice : Choice) : (child choice).path? = some path :=
        Node.path?_of_readControl ((reads choice).trans reading)
      have routed (choice : Choice) := Node.payload?_ne_none_of_path? (carried choice)
      by_cases again : ∃ later ∈ after, later.path? = some path
      · refine of_hidden (fun choice both => ?_) fun choice => ?_
        · obtain ⟨later, member, carries⟩ := again
          exact both.1 later member carries
        · refine outline_eq_of_groups identifier props selfClosing
            (Children.routed_of_later again (carried choice) (carried default)) ?_
          rw [Children.content_of_routed _ _ (routed choice),
            Children.content_of_routed _ _ (routed default)]
      · have last : ∀ later ∈ after, later.path? ≠ some path :=
          fun later member carries => again ⟨later, member, carries⟩
        have same : node = child := funext fun choice => Option.some.inj
          ((settles choice).symm.trans (Node.significant?_of_routed (routed choice)))
        subst same
        exact (opens.routed identifier props before after selfClosing carried last).congr
          (fun _ => and_iff_right last) fun _ => rfl

end Child

end OpensOnce

end Varying

end MarkupBlocks
