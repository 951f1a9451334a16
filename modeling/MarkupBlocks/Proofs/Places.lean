/-
What is seen of a node from its place.

What is around a node looks at little of it. The siblings of a document look at what is left of it,
and at its key and its kind when there are several of them. An element looks at the value of a
property as a whole, unless the property is reserved; then all that matters is what it says. And an
element looks at the path of a child, and at what is left of the child among the content when there
is none. Two nodes between which their surroundings see no difference may take the place of each
other. Further out the tree around the place is an element, and it is the same element but for its
parts: it has the same control properties, so nothing further out sees a difference either.
-/

import Mathlib.Data.List.Forall2
import MarkupBlocks.Proofs.Contexts

namespace MarkupBlocks

/-- What is around a node. -/
inductive Surroundings where
  /-- It is one of the siblings of a document. -/
  | document (before after : List Node)
  /-- It is the value of a property. -/
  | prop (name : String)
  /-- It is one of the children of an element. -/
  | children (before after : List Node)

/-- What is around the place of a context, given what is around the tree. -/
def Context.around (outer : Surroundings) : Context → Surroundings
  | here => outer
  | prop _ _ name inner _ _ _ => inner.around (.prop name)
  | child _ _ before inner after _ => inner.around (.children before after)

section Replacing

variable (comparison : Comparison)

/-- What is left of two nodes among siblings compares alike, in every slot as well when there are
several siblings. -/
def SiblingsAlike (siblings : List Node) (left right : Node) : Prop :=
  Option.Rel (fun kept other => comparison.Agree kept other ∧
    (2 ≤ (Siblings.significant siblings).length → comparison.SlotsAgree kept other))
    left.significant? right.significant?

/-- Surroundings see no difference between two nodes. -/
def Surroundings.Alike (left right : Node) : Surroundings → Prop
  | document before after => SiblingsAlike comparison (before ++ left :: after) left right
  | prop name =>
    (Control.isReserved name = false → comparison.Agree left right) ∧
      (Control.isReserved name = true → left.kind = right.kind ∧ left.literal? = right.literal?)
  | children before after =>
    left.readControl .path = right.readControl .path ∧
      (left.path? ≠ none → comparison.Agree left right) ∧
      (left.payload? .path = none →
        SiblingsAlike comparison (Children.content (before ++ left :: after)) left right)

variable {comparison} {left right : Node}

/-! ### Lists with one node replaced -/

theorem forall₂_replace {Member : Type} {Like : Member → Member → Prop}
    (refl : ∀ member, Like member member) {first second : Member} (like : Like first second)
    (before after : List Member) :
    List.Forall₂ Like (before ++ first :: after) (before ++ second :: after) :=
  List.rel_append (List.forall₂_same.mpr fun member _ => refl member)
    (.cons like (List.forall₂_same.mpr fun member _ => refl member))

theorem siblingsAgree_replace {before after : List Node}
    (alike : SiblingsAlike comparison (before ++ left :: after) left right) :
    comparison.SiblingsAgree (Siblings.significant (before ++ left :: after))
      (Siblings.significant (before ++ right :: after)) := by
  unfold SiblingsAlike at alike
  rw [Siblings.significant_append_cons] at alike ⊢
  rw [Siblings.significant_append_cons]
  generalize left.significant? = kept at alike ⊢
  generalize right.significant? = other at alike ⊢
  cases alike with
  | none => exact Comparison.siblingsAgree_refl _
  | some alike =>
    refine Siblings.agree_of_forall₂ ?_
    refine forall₂_replace (fun node => ?_) ?_ _ _
    · exact ⟨Comparison.agree_refl node, fun _ => (Comparison.agree_refl node).slots rfl rfl⟩
    · exact alike

/-- What the children of an element come to compares alike when one child is replaced by another
between which the element sees no difference. -/
theorem childrenAgree_replace {before after : List Node}
    (alike : (Surroundings.children before after).Alike comparison left right) :
    comparison.ChildrenAgree (before ++ left :: after) (before ++ right :: after) := by
  obtain ⟨path, agree, siblings⟩ := alike
  have children : List.Forall₂ (fun child other =>
      child.readControl .path = other.readControl .path ∧
        (child.path? ≠ none → comparison.Agree child other))
      (before ++ left :: after) (before ++ right :: after) :=
    forall₂_replace (fun child => ⟨rfl, fun _ => Comparison.agree_refl child⟩) ⟨path, agree⟩ _ _
  refine ⟨?_, ?_, content_isEmpty_eq_of_path And.left children, ?_⟩
  · rw [classifySteps_eq_of_path And.left children]
    exact comparison.joinsSteps.refl _
  · refine forall₂_imp_of_mem (forall₂_routed_of_path And.left children)
      fun pair member other bound => ⟨bound.1, bound.2.2 ?_⟩
    obtain ⟨-, -, -, carried, -⟩ := Children.mem_routed_iff.mp member
    exact Option.ne_none_iff_exists'.mpr ⟨pair.1, carried⟩
  · by_cases unrouted : left.payload? .path = none
    · have unrouted' : right.payload? .path = none := by
        rw [← Option.isNone_iff_eq_none] at unrouted ⊢
        rwa [← isNone_eq_of_readPayload path]
      have kept := siblings unrouted
      rw [Children.content_of_unrouted _ _ unrouted] at kept ⊢
      rw [Children.content_of_unrouted _ _ unrouted']
      exact siblingsAgree_replace kept
    · have routed : right.payload? .path ≠ none := by
        rw [← Option.isNone_iff_eq_none] at unrouted
        rwa [ne_eq, ← Option.isNone_iff_eq_none, ← isNone_eq_of_readPayload path]
      rw [Children.content_of_routed _ _ unrouted, Children.content_of_routed _ _ routed]
      exact Comparison.siblingsAgree_refl _

/-! ### Elements with one part replaced -/

section Property

variable {identifier name : String} {before after : List (String × Node)} {children : List Node}
  {selfClosing : Bool} (alike : (Surroundings.prop name).Alike comparison left right)

include alike

/-- Control properties say the same when the value of one property is replaced by another between
which the element sees no difference. -/
theorem readControl_replace_prop (control : Control) :
    Element.readControl ⟨identifier, before ++ (name, left) :: after, children, selfClosing⟩
        control =
      Element.readControl ⟨identifier, before ++ (name, right) :: after, children, selfClosing⟩
        control := by
  refine readPayload_eq_of_rel ?_
  show Option.Rel _ (List.lookup _ _) (List.lookup _ _)
  rw [List.lookup_append, List.lookup_append]
  have refl (payload : Option Node) : Option.Rel (fun value other : Node =>
      value.kind = other.kind ∧ value.literal? = other.literal?) payload payload := by
    cases payload with
    | none => exact .none
    | some value => exact .some ⟨rfl, rfl⟩
  cases List.lookup control.name before with
  | some value => exact refl (some value)
  | none =>
    rw [Option.none_or, Option.none_or, List.lookup_cons, List.lookup_cons]
    cases asked : control.name == name with
    | false => exact refl _
    | true => exact .some (alike.2 (eq_of_beq asked ▸ control.isReserved_name))

theorem agree_replace_prop :
    comparison.Agree
      (.element ⟨identifier, before ++ (name, left) :: after, children, selfClosing⟩)
      (.element ⟨identifier, before ++ (name, right) :: after, children, selfClosing⟩) := by
  have props : List.Forall₂ (fun prop other : String × Node =>
      prop.1 = other.1 ∧ (Control.isReserved prop.1 = false → comparison.Agree prop.2 other.2))
      (before ++ (name, left) :: after) (before ++ (name, right) :: after) :=
    forall₂_replace (fun prop => ⟨rfl, fun _ => Comparison.agree_refl prop.2⟩) ⟨rfl, alike.1⟩ _ _
  have free := List.rel_filter (p := fun prop => !Control.isReserved prop.1)
    (q := fun prop => !Control.isReserved prop.1)
    (fun prop other related => by simp only [related.1]) props
  refine Element.agree_of_childrenAgree (Or.inl (readControl_replace_prop alike .children))
    (Comparison.propsAgree_of_free rfl rfl (forall₂_imp_of_mem free
      fun prop member other related => ⟨related.1, related.2 ?_⟩))
    (Comparison.childrenAgree_refl children)
  exact (Bool.not_eq_true' _).mp (List.mem_filter.mp member).2

end Property

theorem agree_replace_child {identifier : String} {props : List (String × Node)}
    {before after : List Node} {selfClosing : Bool}
    (alike : (Surroundings.children before after).Alike comparison left right) :
    comparison.Agree (.element ⟨identifier, props, before ++ left :: after, selfClosing⟩)
      (.element ⟨identifier, props, before ++ right :: after, selfClosing⟩) :=
  Element.agree_of_childrenAgree (Or.inl rfl) (Comparison.propsAgree_of_free_eq rfl rfl rfl)
    (childrenAgree_replace alike)

/-- Nothing sees a difference between elements that compare alike and whose control properties say
the same. -/
theorem Surroundings.alike_of_element {left right : Element}
    (agree : comparison.Agree (.element left) (.element right))
    (same : ∀ control, left.readControl control = right.readControl control)
    (surroundings : Surroundings) :
    surroundings.Alike comparison (.element left) (.element right) := by
  have siblings (nodes : List Node) : SiblingsAlike comparison nodes (.element left)
      (.element right) :=
    .some ⟨agree, fun _ => agree.slots (same .key) rfl⟩
  cases surroundings with
  | document before after => exact siblings _
  | prop name => exact ⟨fun _ => agree, fun _ => ⟨rfl, rfl⟩⟩
  | children before after => exact ⟨same .path, fun _ => agree, fun _ => siblings _⟩

/-! ### Trees with the place filled -/

/-- What is seen of the place from its surroundings is all that is seen of it from further out. -/
theorem Context.alike_fill (context : Context) {outer : Surroundings}
    (alike : (context.around outer).Alike comparison left right) :
    outer.Alike comparison (context.fill left) (context.fill right) := by
  induction context generalizing outer with
  | here => exact alike
  | prop identifier before name inner after children selfClosing inductionHypothesis =>
    have inside := inductionHypothesis alike
    exact Surroundings.alike_of_element (agree_replace_prop inside)
      (readControl_replace_prop inside) outer
  | child identifier props before inner after selfClosing inductionHypothesis =>
    exact Surroundings.alike_of_element (agree_replace_child (inductionHypothesis alike))
      (fun _ => rfl) outer

/-- Documents compare alike when they are the same but for one place, and what is around it sees no
difference. -/
theorem siblingsAgree_fill {before after : List Node} {context : Context}
    (alike : (context.around (.document before after)).Alike comparison left right) :
    comparison.SiblingsAgree (Siblings.significant (before ++ context.fill left :: after))
      (Siblings.significant (before ++ context.fill right :: after)) :=
  siblingsAgree_replace (context.alike_fill alike)

end Replacing

end MarkupBlocks
