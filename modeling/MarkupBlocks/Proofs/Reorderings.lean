/-
Trees that differ in the order of properties.

To put the properties of one element in another order, wherever in a tree the element stands, is one
step. Equality of trees does not speak of steps: it looks the properties of the one element up in
the other and counts them. But as no property is set twice, the properties that are found are all
that there are, and they can be put in an order in which they compare one by one. So an element is
taken to an equal one by changing its properties and its children one after the other, and then the
order of its properties; and a step in front of a tree that is equal to another one is not noticed.
Steps can be undone and put in a row, so equality is an equivalence.
-/

import Mathlib.Logic.Relation
import MarkupBlocks.Proofs.Contexts
import MarkupBlocks.Proofs.SameTrees
import MarkupBlocks.Proofs.SettingProps

namespace MarkupBlocks

/-- Somewhere in a tree, the properties of one element are put in another order. -/
inductive Reordered : Node → Node → Prop
  | place (context : Context) (element : Element) {props : List (String × Node)}
      (order : element.props.Perm props) :
      Reordered (context.fill (.element element))
        (context.fill (.element { element with props := props }))

namespace Reordered

variable {left right : Node} (step : Reordered left right)

include step

theorem symm : Reordered right left := by
  obtain ⟨context, element, order⟩ := step
  cases element
  exact .place context _ order.symm

/-- A step in the value of a property is a step in the element. -/
theorem prop (identifier : String) (before : List (String × Node)) (name : String)
    (after : List (String × Node)) (children : List Node) (selfClosing : Bool) :
    Reordered (.element ⟨identifier, before ++ (name, left) :: after, children, selfClosing⟩)
      (.element ⟨identifier, before ++ (name, right) :: after, children, selfClosing⟩) := by
  obtain ⟨context, element, order⟩ := step
  exact .place (.prop identifier before name context after children selfClosing) element order

/-- A step in a child is a step in the element. -/
theorem child (identifier : String) (props : List (String × Node)) (before after : List Node)
    (selfClosing : Bool) :
    Reordered (.element ⟨identifier, props, before ++ left :: after, selfClosing⟩)
      (.element ⟨identifier, props, before ++ right :: after, selfClosing⟩) := by
  obtain ⟨context, element, order⟩ := step
  exact .place (.child identifier props before context after selfClosing) element order

end Reordered

/-- One tree can be taken to another by putting properties in another order, again and again. -/
def Rearranged : Node → Node → Prop :=
  Relation.ReflTransGen Reordered

/-! ### From equality to steps -/

/-- A list in a tree is taken to another one when each of its members can be. -/
theorem rearranged_of_forall₂ {Member : Type} (whole : List Member → Node)
    {left right : List Member}
    (each : List.Forall₂ (fun member other => ∀ before after,
      Rearranged (whole (before ++ member :: after)) (whole (before ++ other :: after)))
      left right) :
    Rearranged (whole left) (whole right) := by
  -- The members in front have been taken to their counterparts already.
  have onward : ∀ before, Rearranged (whole (before ++ left)) (whole (before ++ right)) := by
    induction each with
    | nil => exact fun before => .refl
    | @cons member other rest others head _ inductionHypothesis =>
      intro before
      have tail := inductionHypothesis (before ++ [other])
      rw [List.append_assoc, List.append_assoc] at tail
      exact (head before rest).trans tail
  exact onward []

section Parts

variable (identifier : String) (selfClosing : Bool)

theorem rearranged_props {props others : List (String × Node)}
    (alike : List.Forall₂ (BoundAlike Rearranged) props others) (children : List Node) :
    Rearranged (.element ⟨identifier, props, children, selfClosing⟩)
      (.element ⟨identifier, others, children, selfClosing⟩) := by
  refine rearranged_of_forall₂ (fun props => .element ⟨identifier, props, children, selfClosing⟩)
    (alike.imp ?_)
  rintro ⟨name, value⟩ ⟨_, other⟩ ⟨rfl, steps⟩ before after
  exact steps.lift _ fun _ _ step => step.prop identifier before name after children selfClosing

theorem rearranged_children {children others : List Node}
    (alike : List.Forall₂ Rearranged children others) (props : List (String × Node)) :
    Rearranged (.element ⟨identifier, props, children, selfClosing⟩)
      (.element ⟨identifier, props, others, selfClosing⟩) := by
  refine rearranged_of_forall₂ (fun children => .element ⟨identifier, props, children, selfClosing⟩)
    (alike.imp ?_)
  intro child other steps before after
  exact steps.lift _ fun _ _ step => step.child identifier props before after selfClosing

end Parts

/-- A tree is taken to an equal one: the values of properties first, then the children, and at last
the order of the properties. -/
theorem SameTree.rearranged {left right : Node} (same : SameTree left right) :
    Rearranged left right := by
  have wellFormed := same.1
  induction wellFormed generalizing right with
  | leaf content =>
    rw [same.leaf]
    exact .refl
  | @element left _ _ _ valuesRearranged childrenRearranged =>
    obtain ⟨right, arranged, rfl, alike⟩ := same.element
    have values : List.Forall₂ (BoundAlike Rearranged) left.props arranged :=
      forall₂_imp_of_mem alike.props fun prop member other bound =>
        ⟨bound.1, valuesRearranged prop member bound.2⟩
    have nodes : List.Forall₂ Rearranged left.children right.children :=
      forall₂_imp_of_mem alike.children fun child member other same =>
        childrenRearranged child member same
    cases left with
    | mk identifier props children selfClosing =>
    cases right with
    | mk otherIdentifier others otherChildren otherClosing =>
    obtain rfl : identifier = otherIdentifier := alike.identifier
    obtain rfl : selfClosing = otherClosing := alike.selfClosing
    have ordered : Reordered (.element ⟨identifier, arranged, otherChildren, selfClosing⟩)
        (.element ⟨identifier, others, otherChildren, selfClosing⟩) :=
      .place .here _ alike.order
    exact ((rearranged_props identifier selfClosing values children).trans
      (rearranged_children identifier selfClosing nodes arranged)).tail ordered

/-! ### From steps to equality -/

/-- Elements are equal when the properties of the one, in some order, are equal to those of the
other one by one, and so are the children. -/
theorem SameElement.sameTree {left right : Element} {arranged : List (String × Node)}
    (same : SameElement left right arranged) : SameTree (.element left) (.element right) := by
  have distinct : (Bindings.names left.props).Nodup :=
    Bindings.names_eq_of_forall₂ same.props ▸ same.distinct
  have values : ∀ prop ∈ left.props, prop.2.WellFormed :=
    ((List.forall₂_and_left _ _).mp (same.props.imp fun _ _ bound => ⟨bound.2.1, bound⟩)).1
  have children : ∀ child ∈ left.children, child.WellFormed :=
    ((List.forall₂_and_left _ _).mp (same.children.imp fun _ _ same => ⟨same.1, same⟩)).1
  have within : propsWithin left.props right.props = true := by
    refine propsWithin_iff.mpr fun prop member => ?_
    have found : left.prop? prop.1 = some prop.2 :=
      (Bindings.get?_eq_some_iff distinct).mpr member
    have answers := same.prop? prop.1
    rw [found] at answers
    generalize answer : right.prop? prop.1 = value at answers
    cases answers with
    | some like => exact ⟨_, answer, like.2⟩
  have childrenSame : sameChildren left.children right.children = true :=
    sameChildren_iff.mpr (same.children.imp fun _ _ same => same.2)
  refine ⟨.element distinct values children, ?_⟩
  have lengths := same.props.length_eq.trans same.order.length_eq
  cases left
  rw [Node.same, Element.same, Bool.and_eq_true, Bool.and_eq_true, Bool.and_eq_true,
    Bool.and_eq_true, beq_iff_eq, beq_iff_eq, beq_iff_eq]
  exact ⟨⟨⟨⟨same.identifier, same.selfClosing⟩, lengths⟩, within⟩, childrenSame⟩

theorem SameTree.refl {node : Node} (wellFormed : node.WellFormed) : SameTree node node := by
  induction wellFormed with
  | leaf content => exact ⟨.leaf content, by rw [Node.same, beq_self_eq_true]⟩
  | element distinct props children sameProps sameChildren =>
    exact SameElement.sameTree ⟨rfl, rfl, distinct, .refl _,
      List.forall₂_same.mpr fun prop member => ⟨rfl, sameProps prop member⟩,
      List.forall₂_same.mpr sameChildren⟩

/-- One member on the left may be replaced by another one that is related to as much. -/
theorem forall₂_of_replace {Left Right : Type} {Like : Left → Right → Prop} {member replaced : Left}
    (related : ∀ other, Like member other → Like replaced other) {before after : List Left}
    {others : List Right} (alike : List.Forall₂ Like (before ++ member :: after) others) :
    List.Forall₂ Like (before ++ replaced :: after) others := by
  induction before generalizing others with
  | nil =>
    cases alike with
    | cons head tail => exact .cons (related _ head) tail
  | cons first rest inductionHypothesis =>
    cases alike with
    | cons head tail => exact .cons head (inductionHypothesis tail)

/-- A step in front of a tree that is equal to another one is not noticed. -/
theorem Reordered.sameTree {left middle right : Node} (step : Reordered left middle)
    (same : SameTree middle right) : SameTree left right := by
  obtain ⟨context, element, order⟩ := step
  induction context generalizing right with
  | here =>
    obtain ⟨right, arranged, rfl, alike⟩ := same.element
    obtain ⟨turned, props, rearranged⟩ := List.perm_comp_forall₂ order alike.props
    have distinct : (Bindings.names turned).Nodup :=
      ((rearranged.map Prod.fst).nodup_iff).mpr alike.distinct
    exact SameElement.sameTree ⟨alike.identifier, alike.selfClosing, distinct,
      rearranged.trans alike.order, props, alike.children⟩
  | prop identifier before name inner after children selfClosing inductionHypothesis =>
    obtain ⟨right, arranged, rfl, alike⟩ := same.element
    have bound (other : String × Node)
        (same : BoundAlike SameTree
          (name, inner.fill (.element { element with props := _ })) other) :
        BoundAlike SameTree (name, inner.fill (.element element)) other :=
      ⟨same.1, inductionHypothesis same.2⟩
    exact SameElement.sameTree { alike with props := forall₂_of_replace bound alike.props }
  | child identifier props before inner after selfClosing inductionHypothesis =>
    obtain ⟨right, arranged, rfl, alike⟩ := same.element
    exact SameElement.sameTree
      { alike with children := forall₂_of_replace (fun _ => inductionHypothesis) alike.children }

theorem Rearranged.sameTree {left right : Node} (steps : Rearranged left right)
    (wellFormed : right.WellFormed) : SameTree left right := by
  induction steps using Relation.ReflTransGen.head_induction_on with
  | refl => exact .refl wellFormed
  | head step _ same => exact step.sameTree same

theorem Rearranged.symm {left right : Node} (steps : Rearranged left right) :
    Rearranged right left := by
  have undone : Std.Symm Reordered := ⟨fun _ _ step => step.symm⟩
  exact Relation.ReflTransGen.stdSymm.symm left right steps

theorem beq_iff_rearranged {left right : Node} (leftWellFormed : left.WellFormed)
    (rightWellFormed : right.WellFormed) : (left == right) = true ↔ Rearranged left right := by
  constructor
  · intro same
    exact SameTree.rearranged ⟨leftWellFormed, same⟩
  · intro steps
    exact (steps.sameTree rightWellFormed).2

/-! ### Elements built in another order -/

namespace Bindings

variable {Value : Type}

/-- Bindings without a repeated name that answer alike are the same but for their order. -/
theorem perm_of_get?_eq {left right : Bindings Value} (distinct : (names left).Nodup)
    (otherDistinct : (names right).Nodup) (answers : ∀ name, get? left name = get? right name) :
    left.Perm right := by
  refine (List.perm_ext_iff_of_nodup (List.Nodup.of_map _ distinct)
    (List.Nodup.of_map _ otherDistinct)).mpr ?_
  rintro ⟨name, value⟩
  rw [← get?_eq_some_iff distinct, answers, get?_eq_some_iff otherDistinct]

/-- What is bound later comes first when a name is looked up. -/
theorem get?_ofList_append (before after : List (String × Value)) (name : String) :
    get? (ofList (before ++ after)) name =
      (get? (ofList after) name).or (get? (ofList before) name) := by
  rw [get?_ofList, get?_ofList, get?_ofList, List.filter_append, List.getLast?_append,
    Option.map_or]

/-- Pairs that bind no name twice can be bound in any order. -/
theorem ofList_append_perm (before : List (String × Value)) {pairs others : List (String × Value)}
    (distinct : (names pairs).Nodup) (order : pairs.Perm others) :
    (ofList (before ++ pairs)).Perm (ofList (before ++ others)) := by
  have otherDistinct : (names others).Nodup := ((order.map Prod.fst).nodup_iff).mp distinct
  refine perm_of_get?_eq (nodup_names_ofList _) (nodup_names_ofList _) fun name => ?_
  rw [get?_ofList_append, get?_ofList_append, ofList_of_nodup distinct,
    ofList_of_nodup otherDistinct, get?_eq_of_perm distinct order]

end Bindings

namespace Element

/-- Properties of different names can be set in any order, up to the order of properties. -/
theorem reordered_setProps {element : Element} (wellFormed : element.WellFormed)
    {given others : List (String × Node)} (distinct : (Bindings.names given).Nodup)
    (order : given.Perm others) :
    Reordered (.element (element.setProps given)) (.element (element.setProps others)) := by
  have unique := (Node.wellFormed_element_iff.mp wellFormed).1
  rw [setProps_eq unique, setProps_eq unique]
  exact .place .here { element with props := Bindings.ofList (element.props ++ given) }
    (Bindings.ofList_append_perm element.props distinct order)

end Element

/-- Trees in which no property is set twice are equal exactly when the one can be taken to the other
by putting properties in another order, at any depth. So equality is an equivalence of such trees,
and an element does not depend on the order in which properties of different names are set. -/
theorem same_iff_rearranged :
    (∀ left right : Node, left.WellFormed → right.WellFormed →
      ((left == right) = true ↔ Rearranged left right)) ∧
    Equivalence (fun left right : {node : Node // node.WellFormed} =>
      (left.1 == right.1) = true) ∧
    ∀ (element : Element) (given others : List (String × Node)), element.WellFormed →
      (∀ prop ∈ given, prop.2.WellFormed) → (Bindings.names given).Nodup → given.Perm others →
        (element.setProps given == element.setProps others) = true := by
  refine ⟨fun _ _ => beq_iff_rearranged, ⟨?_, ?_, ?_⟩, ?_⟩
  · intro node
    exact (beq_iff_rearranged node.2 node.2).mpr .refl
  · intro left right same
    rw [beq_iff_rearranged left.2 right.2] at same
    exact (beq_iff_rearranged right.2 left.2).mpr same.symm
  · intro left middle right first second
    rw [beq_iff_rearranged left.2 middle.2] at first
    rw [beq_iff_rearranged middle.2 right.2] at second
    exact (beq_iff_rearranged left.2 right.2).mpr (first.trans second)
  · intro element given others wellFormed values distinct order
    have step := Element.reordered_setProps wellFormed distinct order
    have built : (element.setProps others).WellFormed :=
      Element.wellFormed_setProps wellFormed fun prop member =>
        values prop (order.mem_iff.mpr member)
    have same := (step.sameTree (.refl built)).2
    rwa [Node.same] at same

/-- The properties of an element, those of an element in a property and those of a child are given
in two orders. Children in another order make another tree. -/
theorem same_iff_rearranged_nested :
    let code := Node.leaf (.expression "f")
    let shown := Node.leaf (.boolean true)
    let inner (props : List (String × Node)) := Node.element ⟨"V:B", props, [], false⟩
    let first := inner [("p", code), ("q", shown)]
    let second := inner [("q", shown), ("p", code)]
    let left := Node.element ⟨"a", [("x", first), ("y", code)], [first, code], true⟩
    let right := Node.element ⟨"a", [("y", code), ("x", second)], [second, code], true⟩
    let turned := Node.element ⟨"a", [("x", first), ("y", code)], [code, first], true⟩
    (left.WellFormed ∧ right.WellFormed ∧ turned.WellFormed) ∧
      Rearranged left right ∧ ¬ Rearranged left turned ∧
      ((Element.new "a").setProps [("x", first), ("y", code)] ==
        (Element.new "a").setProps [("y", code), ("x", first)]) = true := by
  intro code shown inner first second left right turned
  have wellFormed : left.WellFormed ∧ right.WellFormed ∧ turned.WellFormed := by decide +kernel
  obtain ⟨equal, -, built⟩ := same_iff_rearranged
  refine ⟨wellFormed, ?_, ?_, ?_⟩
  · exact (equal left right wellFormed.1 wellFormed.2.1).mp (by decide +kernel)
  · rw [← equal left turned wellFormed.1 wellFormed.2.2]
    decide +kernel
  · exact built (.new "a") [("x", first), ("y", code)] [("y", code), ("x", first)]
      (Element.wellFormed_new "a" false) (by decide +kernel) (by decide) (.swap _ _ [])

end MarkupBlocks
