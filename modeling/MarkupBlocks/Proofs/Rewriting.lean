/-
Rewriting a tree at every depth.

A change of a single element is made everywhere in a tree, the innermost elements first. When the
change leaves the control properties alone and is not noticed at any one element, it is not
noticed in the whole: the rewritten parts compare alike with the parts by induction, so the
element with rewritten parts does with the element, and the change that is made last is not
noticed either.
-/

import MarkupBlocks.Markup.WellFormed
import MarkupBlocks.Proofs.Comparisons

namespace MarkupBlocks

mutual

/-- Makes a change at every element of a tree. -/
def Node.rewrite (change : Element → Element) : Node → Node
  | .leaf content => .leaf content
  | .element root => .element (root.rewrite change)

/-- Makes a change at an element and at every element in it. -/
def Element.rewrite (change : Element → Element) : Element → Element
  | ⟨identifier, props, children, selfClosing⟩ =>
    change ⟨identifier, rewriteProps change props, rewriteNodes change children, selfClosing⟩

/-- Makes a change in the values of properties. -/
def rewriteProps (change : Element → Element) : List (String × Node) → List (String × Node)
  | [] => []
  | (name, value) :: rest => (name, value.rewrite change) :: rewriteProps change rest

/-- Makes a change in a list of nodes. -/
def rewriteNodes (change : Element → Element) : List Node → List Node
  | [] => []
  | node :: rest => node.rewrite change :: rewriteNodes change rest

end

section Rewriting

variable (change : Element → Element)

theorem rewriteProps_eq_map (props : List (String × Node)) :
    rewriteProps change props = props.map fun prop => (prop.1, prop.2.rewrite change) := by
  induction props with
  | nil => rfl
  | cons head rest inductionHypothesis => rw [rewriteProps, inductionHypothesis, List.map_cons]

theorem rewriteNodes_eq_map (nodes : List Node) :
    rewriteNodes change nodes = nodes.map (Node.rewrite change) := by
  induction nodes with
  | nil => rfl
  | cons head rest inductionHypothesis => rw [rewriteNodes, inductionHypothesis, List.map_cons]

/-- An element whose parts are rewritten, and which is otherwise as it was. -/
def Element.rewriteParts (element : Element) : Element :=
  { element with
    props := element.props.map fun prop => (prop.1, prop.2.rewrite change)
    children := element.children.map (Node.rewrite change) }

theorem Element.rewrite_eq (element : Element) :
    element.rewrite change = change (element.rewriteParts change) := by
  obtain ⟨identifier, props, children, selfClosing⟩ := element
  rw [Element.rewrite, rewriteProps_eq_map, rewriteNodes_eq_map]
  rfl

theorem Node.rewrite_leaf (content : Leaf) :
    (Node.leaf content).rewrite change = .leaf content := by
  rw [Node.rewrite]

theorem Node.rewrite_element (root : Element) :
    (Node.element root).rewrite change = .element (change (root.rewriteParts change)) := by
  rw [Node.rewrite, Element.rewrite_eq]

/-- The values of properties correspond to what they are rewritten to. -/
theorem Element.forall₂_rewriteProps (element : Element) :
    List.Forall₂ (BoundAlike fun value other => other = value.rewrite change) element.props
      (element.rewriteParts change).props :=
  List.forall₂_map_right_iff.mpr (List.forall₂_same.mpr fun _ _ => ⟨rfl, rfl⟩)

/-- Nodes correspond to what they are rewritten to. -/
theorem forall₂_rewrite (nodes : List Node) :
    List.Forall₂ (fun node other => other = node.rewrite change) nodes
      (nodes.map (Node.rewrite change)) :=
  List.forall₂_map_right_iff.mpr (List.forall₂_same.mpr fun _ _ => rfl)

variable {change}

/-- A change that leaves the control properties alone keeps what is read of a node. -/
theorem correspondence_rewrite
    (controls : ∀ (root : Element) (control : Control),
      (change root).prop? control.name = root.prop? control.name) :
    Correspondence fun node other => other = node.rewrite change := by
  refine correspondence_of_map (Node.rewrite_leaf change) fun root =>
    ⟨_, Node.rewrite_element change root, fun control => ?_⟩
  have bound := Bindings.rel_get? (root.forall₂_rewriteProps change) control.name
  rw [controls, Element.prop?, Element.prop?]
  generalize Bindings.get? root.props control.name = before at bound ⊢
  generalize Bindings.get? (root.rewriteParts change).props control.name = after at bound ⊢
  cases bound with
  | none => rfl
  | some same => rw [same, Option.map_some]

section Unnoticed

variable {comparison : Comparison}
  (controls : ∀ (root : Element) (control : Control),
    (change root).prop? control.name = root.prop? control.name)
  (unnoticed : ∀ root : Element, comparison.Agree (.element root) (.element (change root)))

include controls unnoticed

/-- A change that is not noticed at any element is not noticed in a tree. -/
theorem agree_rewrite (node : Node) : comparison.Agree node (node.rewrite change) := by
  have correspondence := correspondence_rewrite controls
  induction node using Node.induction with
  | leaf content =>
    rw [Node.rewrite_leaf]
    exact Comparison.agree_refl _
  | element element inductionHypothesis =>
    have parts (part : Node) (member : part ∈ element.parts) (other : Node)
        (same : other = part.rewrite change) : comparison.Agree part other :=
      same ▸ inductionHypothesis part member
    have props := element.forall₂_rewriteProps change
    have rewritten : comparison.Agree (.element element)
        (.element (element.rewriteParts change)) :=
      Element.agree correspondence (Bindings.rel_get? props _)
        (forall₂_rewrite change element.children)
        (Comparison.propsAgree_of_forall₂ rfl rfl props parts) parts
    rw [Node.rewrite_element]
    exact rewritten.trans (unnoticed _)

theorem siblingsAgree_rewrite (nodes : List Node) :
    comparison.SiblingsAgree (Siblings.significant nodes)
      (Siblings.significant (nodes.map (Node.rewrite change))) := by
  have correspondence := correspondence_rewrite controls
  have alike := correspondence.forall₂_significant (forall₂_rewrite change nodes)
  exact Siblings.agree correspondence (alike.imp
    fun node other same => ⟨same, same ▸ agree_rewrite controls unnoticed node⟩)

end Unnoticed

/-- A change that keeps elements well formed keeps trees well formed. -/
theorem Node.wellFormed_rewrite
    (keeps : ∀ root : Element, root.WellFormed → (change root).WellFormed) {node : Node}
    (wellFormed : node.WellFormed) : (node.rewrite change).WellFormed := by
  induction wellFormed with
  | leaf content =>
    rw [Node.rewrite_leaf]
    exact .leaf content
  | @element root distinct props children propsRewritten childrenRewritten =>
    rw [Node.rewrite_element]
    refine keeps _ (.element ?_ (List.forall_mem_map.mpr propsRewritten)
      (List.forall_mem_map.mpr childrenRewritten))
    rwa [Bindings.names, Element.rewriteParts, List.map_map]

end Rewriting

end MarkupBlocks
