/-
Two trees walked together.

What is said about two trees differs: that they have one journal, or one up to some order, that they
have one outline, or one up to some text. It always is something that holds of a whole when it holds
of the parts that are put next to each other. So the walk through both trees is made once here, for
any such comparison. Two elements compare alike when their properties do, their children are sorted
alike, and what is left of the content compares alike; siblings compare alike when they do one by
one, in their slots as well when there are several.
-/

import MarkupBlocks.Proofs.Counterparts

namespace MarkupBlocks

/-! ### What is compared -/

/-- A relation of lists that holds of lists put together from parts of which it holds. -/
structure Joins {Member : Type} (Same : List Member → List Member → Prop) : Prop where
  refl : ∀ members, Same members members
  append : ∀ {left right laterLeft laterRight}, Same left right → Same laterLeft laterRight →
    Same (left ++ laterLeft) (right ++ laterRight)

theorem joins_eq {Member : Type} : Joins (@Eq (List Member)) where
  refl _ := rfl
  append first second := by rw [first, second]

theorem Joins.flatMap {Source Target Member : Type} {Same : List Member → List Member → Prop}
    (joins : Joins Same) {left : List Source} {right : List Target} {change : Source → List Member}
    {other : Target → List Member}
    (each : List.Forall₂ (fun source target => Same (change source) (other target)) left right) :
    Same (left.flatMap change) (right.flatMap other) := by
  induction each with
  | nil => exact joins.refl []
  | cons head _ inductionHypothesis =>
    rw [List.flatMap_cons, List.flatMap_cons]
    exact joins.append head inductionHypothesis

/-- A comparison of trees: what it says of journals, of assignments in a row, and of outlines. A
block compares as its assignments do. -/
structure Comparison where
  SameSteps : List Step → List Step → Prop
  SameRows : List (String × Outline) → List (String × Outline) → Prop
  SameOutline : Outline → Outline → Prop
  joinsSteps : Joins SameSteps
  joinsRows : Joins SameRows
  transSteps : ∀ {left middle right}, SameSteps left middle → SameSteps middle right →
    SameSteps left right
  transOutline : ∀ {left middle right}, SameOutline left middle → SameOutline middle right →
    SameOutline left right
  leaf : ∀ content, SameOutline (.leaf content) (.leaf content)
  assign : ∀ {name left right}, SameOutline left right → SameRows [(name, left)] [(name, right)]
  block : ∀ {prototype left right}, SameRows left right →
    SameOutline (.block prototype left) (.block prototype right)

namespace Comparison

variable (comparison : Comparison)

/-- Two nodes compare alike at every depth. -/
def Agree (left right : Node) : Prop :=
  (∀ depth, comparison.SameSteps (left.journal depth) (right.journal depth)) ∧
    comparison.SameOutline left.outline right.outline

/-- Two lists of siblings compare alike at every depth. -/
def SiblingsAgree (left right : List Node) : Prop :=
  (∀ depth, comparison.SameSteps (Siblings.journal depth left) (Siblings.journal depth right)) ∧
    comparison.SameOutline (Siblings.outline left) (Siblings.outline right)

variable {comparison}

theorem Agree.trans {left middle right : Node} (first : comparison.Agree left middle)
    (second : comparison.Agree middle right) : comparison.Agree left right :=
  ⟨fun depth => comparison.transSteps (first.1 depth) (second.1 depth),
    comparison.transOutline first.2 second.2⟩

theorem sameOutline_refl (outline : Outline) : comparison.SameOutline outline outline := by
  cases outline with
  | leaf content => exact comparison.leaf content
  | block prototype assignments => exact comparison.block (comparison.joinsRows.refl assignments)

theorem agree_refl (node : Node) : comparison.Agree node node :=
  ⟨fun _ => comparison.joinsSteps.refl _, sameOutline_refl _⟩

theorem siblingsAgree_refl (nodes : List Node) : comparison.SiblingsAgree nodes nodes :=
  ⟨fun _ => comparison.joinsSteps.refl _, sameOutline_refl _⟩

/-- Two nodes compare alike in every slot of several siblings. -/
def SlotsAgree (comparison : Comparison) (left right : Node) : Prop :=
  ∀ position, slotLabel left position = slotLabel right position ∧
    ∀ depth, comparison.SameSteps (slotSteps left position (left.journal depth))
      (slotSteps right position (right.journal depth))

/-- Nodes of one kind that have one key compare alike in every slot when they compare alike. -/
theorem Agree.slots {left right : Node} (agree : comparison.Agree left right)
    (key : left.readControl .key = right.readControl .key) (kind : left.kind = right.kind) :
    comparison.SlotsAgree left right := by
  refine fun position => ⟨slotLabel_eq_of_readControl key position, fun depth => ?_⟩
  rw [slotSteps, slotSteps, payloadSteps_eq_of_readPayload key, slotLabel_eq_of_readControl key,
    kind]
  exact comparison.joinsSteps.append (comparison.joinsSteps.append (comparison.joinsSteps.refl _)
    (agree.1 depth)) (comparison.joinsSteps.refl _)

theorem sameRows_map {Source Target : Type} {left : List Source} {right : List Target}
    {row : Source → String × Outline} {other : Target → String × Outline}
    (each : List.Forall₂ (fun source target =>
      BoundAlike comparison.SameOutline (row source) (other target)) left right) :
    comparison.SameRows (left.map row) (right.map other) := by
  rw [List.map_eq_flatMap, List.map_eq_flatMap]
  refine comparison.joinsRows.flatMap (each.imp fun source target bound => ?_)
  obtain ⟨sameName, sameOutline⟩ := bound
  show comparison.SameRows [((row source).1, (row source).2)] [((other target).1, (other target).2)]
  rw [sameName]
  exact comparison.assign sameOutline

end Comparison

theorem forall₂_imp_of_mem {Left Right : Type} {Like Other : Left → Right → Prop}
    {left : List Left} {right : List Right} (alike : List.Forall₂ Like left right)
    (each : ∀ member ∈ left, ∀ other, Like member other → Other member other) :
    List.Forall₂ Other left right :=
  ((List.forall₂_and_left left right).mpr ⟨each, alike⟩).imp fun _ other both => both.1 other both.2

theorem forall₂_zipIdx {Left Right : Type} {Like : Left → Right → Prop} {left : List Left}
    {right : List Right} (alike : List.Forall₂ Like left right) (start : Nat) :
    List.Forall₂ (fun slot other => Like slot.1 other.1 ∧ slot.2 = other.2) (left.zipIdx start)
      (right.zipIdx start) := by
  induction alike generalizing start with
  | nil => exact .nil
  | cons like _ inductionHypothesis => exact .cons ⟨like, rfl⟩ (inductionHypothesis (start + 1))

/-! ### The walk through both trees -/

section Walk

variable {Like : Node → Node → Prop} {comparison : Comparison}

/-- What an element says about itself and in its properties compares alike. -/
structure Comparison.PropsAgree (comparison : Comparison) (left right : Element) : Prop where
  prototype : left.prototype = right.prototype
  steps : ∀ depth, comparison.SameSteps
    (left.assignedProps.flatMap fun pair => pair.2.journal depth)
    (right.assignedProps.flatMap fun pair => pair.2.journal depth)
  rows : comparison.SameRows
    (left.tagOutline ++ left.assignedProps.map fun pair => (pair.1, pair.2.outline))
    (right.tagOutline ++ right.assignedProps.map fun pair => (pair.1, pair.2.outline))

/-- Elements of one name compare alike in their properties when those do that are not reserved. -/
theorem Comparison.propsAgree_of_free {left right : Element}
    (identifier : left.identifier = right.identifier)
    (selfClosing : left.selfClosing = right.selfClosing)
    (free : List.Forall₂ (BoundAlike comparison.Agree)
      (left.props.filter fun prop => !Control.isReserved prop.1)
      (right.props.filter fun prop => !Control.isReserved prop.1)) :
    comparison.PropsAgree left right := by
  have qualified : left.isQualified = right.isQualified := by
    rw [Element.isQualified, Element.isQualified, identifier]
  have named (name : String) : left.assignedName name = right.assignedName name := by
    rw [Element.assignedName, Element.assignedName, qualified]
  have assigned : List.Forall₂ (BoundAlike comparison.Agree) left.assignedProps
      right.assignedProps :=
    List.rel_map (fun prop other bound => ⟨by rw [bound.1, named], bound.2⟩) free
  have tag : left.tagOutline = right.tagOutline := by
    rw [Element.tagOutline, Element.tagOutline, Element.tagProps, Element.tagProps, qualified,
      identifier, selfClosing]
  refine ⟨?_, fun depth => ?_, ?_⟩
  · rw [Element.prototype, Element.prototype, qualified, identifier]
  · exact comparison.joinsSteps.flatMap (assigned.imp fun _ _ both => both.2.1 depth)
  · rw [tag]
    exact comparison.joinsRows.append (comparison.joinsRows.refl _)
      (Comparison.sameRows_map (assigned.imp fun _ _ both => ⟨both.1, both.2.2⟩))

/-- Elements of one name that have the same properties, but for those that are reserved. -/
theorem Comparison.propsAgree_of_free_eq {left right : Element}
    (identifier : left.identifier = right.identifier)
    (selfClosing : left.selfClosing = right.selfClosing)
    (free : (left.props.filter fun prop => !Control.isReserved prop.1) =
      right.props.filter fun prop => !Control.isReserved prop.1) :
    comparison.PropsAgree left right := by
  refine Comparison.propsAgree_of_free identifier selfClosing ?_
  rw [free]
  exact List.forall₂_same.mpr fun prop _ => ⟨rfl, Comparison.agree_refl prop.2⟩

/-- Elements of one name compare alike in their properties when these correspond in their order. -/
theorem Comparison.propsAgree_of_forall₂ {left right : Element}
    (identifier : left.identifier = right.identifier)
    (selfClosing : left.selfClosing = right.selfClosing)
    (props : List.Forall₂ (BoundAlike Like) left.props right.props)
    (parts : ∀ part ∈ left.parts, ∀ other, Like part other → comparison.Agree part other) :
    comparison.PropsAgree left right := by
  have free : List.Forall₂ (BoundAlike Like)
      (left.props.filter fun prop => !Control.isReserved prop.1)
      (right.props.filter fun prop => !Control.isReserved prop.1) :=
    List.rel_filter (fun prop other bound => by simp only [bound.1]) props
  refine Comparison.propsAgree_of_free identifier selfClosing
    (forall₂_imp_of_mem free fun prop member other bound => ⟨bound.1, ?_⟩)
  obtain ⟨present, notReserved⟩ := List.mem_filter.mp member
  exact parts prop.2 (Element.mem_parts_iff.mpr
    (.prop present ((Bool.not_eq_true' _).mp notReserved))) other.2 bound.2

/-- What the children of two elements come to compares alike. -/
structure Comparison.ChildrenAgree (comparison : Comparison) (left right : List Node) : Prop where
  classified : comparison.SameSteps (classifySteps left) (classifySteps right)
  routed : List.Forall₂ (BoundAlike comparison.Agree) (Children.routed left)
    (Children.routed right)
  isEmpty : (Children.content left).isEmpty = (Children.content right).isEmpty
  content : comparison.SiblingsAgree (Siblings.significant (Children.content left))
    (Siblings.significant (Children.content right))

theorem Comparison.childrenAgree_refl (children : List Node) :
    comparison.ChildrenAgree children children where
  classified := comparison.joinsSteps.refl _
  routed := List.forall₂_same.mpr fun pair _ => ⟨rfl, Comparison.agree_refl pair.2⟩
  isEmpty := rfl
  content := Comparison.siblingsAgree_refl _

/-- Siblings compare alike when they do one by one, and in their slots when there are several. -/
theorem Siblings.agree_of_forall₂ {left right : List Node}
    (each : List.Forall₂ (fun node other => comparison.Agree node other ∧
      (2 ≤ left.length → comparison.SlotsAgree node other)) left right) :
    comparison.SiblingsAgree left right := by
  match left, right, each with
  | [], [], _ => exact Comparison.siblingsAgree_refl []
  | [node], [other], .cons head _ =>
    refine ⟨fun depth => ?_, ?_⟩
    · rw [Siblings.journal_singleton, Siblings.journal_singleton]
      exact head.1.1 depth
    · rw [Siblings.outline_singleton, Siblings.outline_singleton]
      exact head.1.2
  | first :: second :: rest, other :: another :: others, each =>
    have several : 2 ≤ (first :: second :: rest).length := Nat.le_add_left 2 rest.length
    have severalOthers : 2 ≤ (other :: another :: others).length := Nat.le_add_left 2 others.length
    have slots := forall₂_zipIdx each 1
    refine ⟨fun depth => ?_, ?_⟩
    · rw [Siblings.journal_of_two_le depth several, Siblings.journal_of_two_le depth severalOthers]
      refine comparison.joinsSteps.flatMap (slots.imp fun slot target related => ?_)
      obtain ⟨⟨-, slotsAgree⟩, position⟩ := related
      rw [position]
      exact (slotsAgree several target.2).2 depth
    · rw [Siblings.outline_of_two_le several, Siblings.outline_of_two_le severalOthers]
      refine comparison.block (Comparison.sameRows_map (slots.imp fun slot target related => ?_))
      obtain ⟨⟨agree, slotsAgree⟩, position⟩ := related
      refine ⟨?_, agree.2⟩
      rw [position]
      exact (slotsAgree several target.2).1

section Elements

variable {left right : Element}
  (label : left.readControl .children = right.readControl .children ∨
    (Children.content left.children).isEmpty = true)

include label

theorem contentSteps_same
    (isEmpty : (Children.content left.children).isEmpty =
      (Children.content right.children).isEmpty)
    {steps others : List Step} (same : comparison.SameSteps steps others) :
    comparison.SameSteps (contentSteps left steps) (contentSteps right others) := by
  rw [contentSteps, contentSteps, ← isEmpty]
  split
  · exact comparison.joinsSteps.refl []
  · next some =>
    rw [payloadSteps_eq_of_readPayload (label.resolve_right some)]
    exact comparison.joinsSteps.append (comparison.joinsSteps.refl _) same

theorem assignedContent_same
    (isEmpty : (Children.content left.children).isEmpty =
      (Children.content right.children).isEmpty)
    {content other : Outline} (same : comparison.SameOutline content other) :
    comparison.SameRows (left.assignedContent content) (right.assignedContent other) := by
  rw [Element.assignedContent_eq, Element.assignedContent_eq, ← isEmpty]
  split
  · exact comparison.joinsRows.refl []
  · next some =>
    rw [Element.contentLabel, Element.contentLabel,
      readable_eq_of_readPayload (label.resolve_right some)]
    exact comparison.assign same

/-- Two elements compare alike when their properties do, what their children come to does, and they
name their content alike, if there is any. -/
theorem Element.agree_of_childrenAgree (props : comparison.PropsAgree left right)
    (children : comparison.ChildrenAgree left.children right.children) :
    comparison.Agree (.element left) (.element right) := by
  refine ⟨fun depth => ?_, ?_⟩
  · rw [Node.journal_element, Node.journal_element, Element.journal_eq, Element.journal_eq]
    have routed := comparison.joinsSteps.flatMap
      (children.routed.imp fun _ _ both => both.2.1 (depth + 1))
    exact comparison.joinsSteps.append (comparison.joinsSteps.append (comparison.joinsSteps.append
      (comparison.joinsSteps.append (comparison.joinsSteps.refl _) children.classified)
      (props.steps (depth + 1))) routed)
      (contentSteps_same label children.isEmpty (children.content.1 (depth + 1)))
  · rw [Node.outline_element, Node.outline_element, Element.outline_eq, Element.outline_eq,
      props.prototype]
    have routed : comparison.SameRows
        ((Children.routed left.children).map fun pair => (pair.1, pair.2.outline))
        ((Children.routed right.children).map fun pair => (pair.1, pair.2.outline)) :=
      Comparison.sameRows_map (children.routed.imp fun _ _ both => ⟨both.1, both.2.2⟩)
    exact comparison.block (comparison.joinsRows.append (comparison.joinsRows.append props.rows
      routed) (assignedContent_same label children.isEmpty children.content.2))

end Elements

/-! ### Trees that correspond -/

variable (correspondence : Correspondence Like)

include correspondence

theorem Siblings.agree {left right : List Node}
    (each : List.Forall₂ (fun node other => Like node other ∧ comparison.Agree node other) left
      right) :
    comparison.SiblingsAgree left right := by
  refine Siblings.agree_of_forall₂ (each.imp fun node other related => ⟨related.2, fun _ => ?_⟩)
  exact related.2.slots (correspondence.readControl_eq .key related.1)
    (correspondence.kind related.1)

/-- Two elements compare alike when their properties do, their children correspond, and all that
corresponds to a part of the one compares alike with it. -/
theorem Element.agree {left right : Element}
    (label : Option.Rel Like (left.prop? Control.children.name) (right.prop? Control.children.name))
    (children : List.Forall₂ Like left.children right.children)
    (props : comparison.PropsAgree left right)
    (parts : ∀ part ∈ left.parts, ∀ other, Like part other → comparison.Agree part other) :
    comparison.Agree (.element left) (.element right) := by
  refine Element.agree_of_childrenAgree (Or.inl (correspondence.readPayload_eq .children label))
    props ⟨?_, ?_, correspondence.content_isEmpty_eq children, ?_⟩
  · rw [classifySteps_eq_of_path (correspondence.readControl_eq .path) children]
    exact comparison.joinsSteps.refl _
  · exact forall₂_imp_of_mem (correspondence.forall₂_routed children) fun pair member other bound =>
      ⟨bound.1, parts pair.2 (Element.mem_parts_of_routed member) other.2 bound.2⟩
  · exact Siblings.agree correspondence (forall₂_imp_of_mem
      (correspondence.forall₂_significant (correspondence.forall₂_content children))
      fun node member other like =>
        And.intro like (parts node (left.mem_parts_of_content member) other like))

end Walk

/-! ### Comparing by equality -/

/-- Trees are the same when they have one outline, and one journal but for the steps that do not
count. -/
def Comparison.upTo (counts : Step → Bool) : Comparison where
  SameSteps left right := left.filter counts = right.filter counts
  SameRows := Eq
  SameOutline := Eq
  joinsSteps := {
    refl := fun _ => rfl
    append := fun first second => by rw [List.filter_append, List.filter_append, first, second] }
  joinsRows := joins_eq
  transSteps := Eq.trans
  transOutline := Eq.trans
  leaf _ := rfl
  assign same := by rw [same]
  block same := by rw [same]

/-- Trees are the same when they have one journal but for the steps that do not count, whatever they
are written as. -/
def Comparison.stepsUpTo (counts : Step → Bool) : Comparison where
  SameSteps := (upTo counts).SameSteps
  SameRows _ _ := True
  SameOutline _ _ := True
  joinsSteps := (upTo counts).joinsSteps
  joinsRows := {
    refl := fun _ => trivial
    append := fun _ _ => trivial }
  transSteps := (upTo counts).transSteps
  transOutline _ _ := trivial
  leaf _ := trivial
  assign _ := trivial
  block _ := trivial

/-- Documents that agree in every step render alike, with the same events, whatever the settings. -/
theorem render_eq_of_agree {left right : List Node}
    (agree : (Comparison.upTo fun _ => true).SiblingsAgree (Siblings.significant left)
      (Siblings.significant right)) (settings : Settings) :
    settings.render left = settings.render right := by
  have journal : documentJournal left = documentJournal right := by
    have same := agree.1 0
    simp only [Comparison.upTo, List.filter_true] at same
    exact same
  have tree : assignmentTree left = assignmentTree right := congrArg Outline.value agree.2
  rw [render_eq_follow, render_eq_follow, journal, tree]

end MarkupBlocks
